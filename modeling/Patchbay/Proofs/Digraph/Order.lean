import Mathlib.Data.List.Induction
import Patchbay.Digraph.Sort
import Patchbay.Proofs.Digraph.Walk

/-!
Topological order. A walk leaves every vertex behind its successors, apart from those that lead back
to it. So a vertex that was left before one of its successors lies on a cycle, and the sort finds an
order exactly where there is no cycle.
-/
namespace Patchbay

open Relation

/-- Whatever the relation puts before a member of the list stands before it in the list. -/
def Heeds {α : Type} (r : α → α → Prop) (l : List α) : Prop :=
  ∀ done v rest, l = done ++ v :: rest → ∀ u, r u v → u ∈ done

namespace Heeds

variable {α : Type} {r r' : α → α → Prop} {l : List α} {u v w : α}

theorem nil : Heeds r [] := fun done v rest h => by simp at h

theorem snoc (h : Heeds r l) (hv : ∀ u, r u v → u ∈ l) : Heeds r (l ++ [v]) := by
  intro done w rest hl u hu
  rcases List.eq_nil_or_concat rest with rfl | ⟨rest, x, rfl⟩
  · obtain ⟨rfl, hw⟩ := List.append_inj' hl rfl
    obtain rfl := List.singleton_inj.1 hw
    exact hv u hu
  · have hl' : l ++ [v] = (done ++ w :: rest) ++ [x] := by simpa using hl
    exact h done w rest (List.append_inj' hl' rfl).1 u hu

theorem of_snoc (h : Heeds r (l ++ [v])) : Heeds r l ∧ ∀ u, r u v → u ∈ l :=
  ⟨fun done w rest hl => h done w (rest ++ [v]) (by simp [hl]), h l v [] rfl⟩

theorem mem (h : Heeds r l) (hv : v ∈ l) (hu : r u v) : u ∈ l := by
  obtain ⟨done, rest, rfl⟩ := List.append_of_mem hv
  exact List.mem_append_left _ (h done v rest rfl u hu)

theorem mem_of_snoc (h : Heeds r (l ++ [v])) (hw : w ∈ l ++ [v]) (hu : r u w) : u ∈ l := by
  obtain ⟨hl, hlast⟩ := h.of_snoc
  rcases List.mem_append.1 hw with hw | hw
  · exact hl.mem hw hu
  · obtain rfl := List.mem_singleton.1 hw
    exact hlast u hu

/-- Along the list a property passes from what stands before a member to the member. -/
theorem induction {P : α → Prop} (h : Heeds r l)
    (step : ∀ v ∈ l, (∀ u, r u v → P u) → P v) (hv : v ∈ l) : P v := by
  induction l using List.reverseRecOn generalizing v with
  | nil => exact absurd hv List.not_mem_nil
  | append_singleton l last ih =>
    obtain ⟨hl, hlast⟩ := h.of_snoc
    have hmem : ∀ v ∈ l, P v := fun v hv =>
      ih hl (fun u hu => step u (List.mem_append_left _ hu)) hv
    rcases List.mem_append.1 hv with hv | hv
    · exact hmem v hv
    · obtain rfl := List.mem_singleton.1 hv
      exact step v (by simp) fun u hu => hmem u (hlast u hu)

theorem mono (h : Heeds r l) (hr : ∀ u v, r' u v → r u v) : Heeds r' l :=
  fun done v rest hl u hu => h done v rest hl u (hr u v hu)

theorem transGen (h : Heeds r l) : Heeds (TransGen r) l := by
  intro done v rest hl u hu
  induction hu generalizing done rest with
  | single hu => exact h done _ rest hl _ hu
  | tail _ hw ih =>
    obtain ⟨first, second, rfl⟩ := List.append_of_mem (h done _ rest hl _ hw)
    exact List.mem_append_left _ (ih first (second ++ _ :: rest) (by simpa using hl))

theorem irrefl (h : Heeds r l) (hl : l.Nodup) (hv : v ∈ l) : ¬ r v v := by
  intro hr
  obtain ⟨done, rest, rfl⟩ := List.append_of_mem hv
  exact (List.nodup_append.1 hl).2.2 v (h done v rest rfl v hr) v List.mem_cons_self rfl

end Heeds

namespace Digraph

variable {α : Type}

def Acyclic (g : Digraph α) : Prop := ∀ v, ¬ TransGen g.Edge v v

/-- `u` is a successor of `v` that does not lead back. -/
def Beyond (g : Digraph α) (u v : α) : Prop := g.Edge v u ∧ ¬ ReflTransGen g.Edge u v

/-- The vertices in an order in which each stands before those that it leads to. -/
structure Sorts (g : Digraph α) (order : List α) : Prop where
  nodup : order.Nodup
  mem_iff : ∀ v, v ∈ order ↔ v ∈ g.vertices
  heeds : Heeds g.Edge order

variable {g : Digraph α} {order : List α} {u v w x : α}

theorem Acyclic.beyond (h : g.Acyclic) (huv : g.Edge v u) : g.Beyond u v :=
  ⟨huv, fun hreach => h v (.head' huv hreach)⟩

theorem Sorts.acyclic (h : g.Sorts order) (hg : g.Closed) : g.Acyclic := by
  intro v hv
  obtain ⟨u, huv, -⟩ := TransGen.head'_iff.1 hv
  exact h.heeds.transGen.irrefl h.nodup ((h.mem_iff v).2 (hg v u huv).1) hv

/-- A vertex that a walk leaves before one of its successors lies on a cycle. -/
theorem transGen_of_left_before {l done rest : List α} (h : Heeds g.Beyond l)
    (hl : l = done ++ v :: rest) (huv : g.Edge v u) (hu : u ∉ done) : TransGen g.Edge v v := by
  by_contra hcycle
  have hback : ¬ ReflTransGen g.Edge u v := fun hreach => hcycle (.head' huv hreach)
  exact hu (h done v rest hl u ⟨huv, hback⟩)

variable [DecidableEq α] {m m' : Marks α} {s roots seen : List α}

/-- The order in which a walk leaves vertices, if those that are open lead to all that it visits. -/
theorem Visit.heeds (h : g.Visit m s m') (hm : Heeds g.Beyond m.finished) (hsound : m.Sound)
    (hopen : ∀ u, m.Open u → ∀ v ∈ s, ReflTransGen g.Edge u v) : Heeds g.Beyond m'.finished := by
  induction h with
  | done => exact hm
  | pass _ _ ih => exact ih hm hsound fun u hu w hw => hopen u hu w (List.mem_cons_of_mem _ hw)
  | @enter m below m' v s hv hnew hahead _ ihahead ihrest =>
    have hentered : v ∈ below.discovered := hahead.discovered_subset (by simp)
    have hbelow : Heeds g.Beyond below.finished := by
      apply ihahead hm (hsound.discover v)
      intro u hu w hw
      have hvw : g.Edge v w := (mem_ahead.1 hw).1
      rcases (Marks.open_discover hnew hsound).1 hu with rfl | hu
      · exact .single hvw
      · exact (hopen u hu v List.mem_cons_self).tail hvw
    apply ihrest
    · by_cases hleft : v ∈ below.finished
      · rwa [Marks.finish_of_mem hleft]
      · rw [Marks.finished_finish_of_notMem hleft]
        -- A successor of `v` was left in the visits below `v` or before, or it is open and leads to `v`.
        apply hbelow.snoc
        rintro u ⟨hvu, hback⟩
        by_cases hu : u ∈ g.ahead m v
        · exact hahead.mem_finished hu
        · have hne : u ≠ v := fun e => hback (e ▸ .refl)
          have hold : u ∈ m.discovered := by
            by_contra hn
            exact hu (mem_ahead.2 ⟨hvu, hn, hne⟩)
          have hleft : u ∈ m.finished := by
            by_contra hn
            exact hback (hopen u ⟨hold, hn⟩ v List.mem_cons_self)
          exact hahead.finished_subset hleft
    · exact (hahead.sound (hsound.discover v)).finish hentered
    · intro u hu w hw
      obtain ⟨hne, hu⟩ := Marks.open_finish.1 hu
      rw [hahead.open_iff (hsound.discover v), Marks.open_discover hnew hsound] at hu
      exact hopen u (hu.resolve_left hne) w (List.mem_cons_of_mem _ hw)

theorem nodup_postorder (hg : g.Closed) (hroots : roots ⊆ g.vertices) :
    (g.postorder roots).Nodup := (visit_roots hg hroots).nodup List.nodup_nil

theorem heeds_postorder (hg : g.Closed) (hroots : roots ⊆ g.vertices) :
    Heeds g.Beyond (g.postorder roots) :=
  (visit_roots hg hroots).heeds .nil (List.nil_subset _) fun _ hu => absurd hu.1 List.not_mem_nil

theorem mem_discovered_of_mem_postorder (hg : g.Closed) (hroots : roots ⊆ g.vertices)
    (hv : v ∈ g.postorder roots) : v ∈ (g.explore .empty roots).discovered :=
  (visit_roots hg hroots).sound (List.nil_subset _) hv

theorem postorder_subset (hg : g.Closed) (hroots : roots ⊆ g.vertices) :
    g.postorder roots ⊆ g.vertices := fun _ hv =>
  (visit_roots hg hroots).discovered_subset_vertices (List.nil_subset _)
    (mem_discovered_of_mem_postorder hg hroots hv)

theorem roots_subset_postorder (hg : g.Closed) (hroots : roots ⊆ g.vertices) :
    roots ⊆ g.postorder roots := (visit_roots hg hroots).mem_finished

theorem mem_postorder_vertices (hg : g.Closed) : v ∈ g.postorder g.vertices ↔ v ∈ g.vertices :=
  ⟨fun h => postorder_subset hg (List.Subset.refl _) h,
    fun h => roots_subset_postorder hg (List.Subset.refl _) h⟩

/-- Without cycles all that the roots lead to comes behind what it leads to itself. -/
theorem Acyclic.heeds_postorder (h : g.Acyclic) (hg : g.Closed) (hroots : roots ⊆ g.vertices) :
    Heeds (flip g.Edge) (g.postorder roots) :=
  (Digraph.heeds_postorder hg hroots).mono fun _ _ huv => h.beyond huv

theorem Acyclic.mem_postorder (h : g.Acyclic) (hg : g.Closed) (hroots : roots ⊆ g.vertices)
    (hu : u ∈ roots) (huv : ReflTransGen g.Edge u v) : v ∈ g.postorder roots := by
  induction huv with
  | refl => exact roots_subset_postorder hg hroots hu
  | tail _ hvw ih =>
    obtain ⟨done, rest, hl⟩ := List.append_of_mem ih
    rw [hl]
    exact List.mem_append_left _ (h.heeds_postorder hg hroots done _ rest hl _ hvw)

theorem retreat?_eq_some {stack : List α} (h : g.retreat? seen s = some (v, stack)) :
    v ∈ s ∧ v ∉ seen := by
  induction s with
  | nil => simp [retreat?] at h
  | cons w s ih =>
    unfold retreat? at h
    split at h
    · obtain ⟨hv, hnew⟩ := ih h
      exact ⟨List.mem_cons_of_mem _ hv, hnew⟩
    · next hnew =>
      obtain ⟨rfl, -⟩ := Prod.mk.inj (Option.some.inj h)
      exact ⟨List.mem_cons_self, hnew⟩

theorem retreat?_eq_none_iff : g.retreat? seen s = none ↔ s ⊆ seen := by
  induction s with
  | nil => simp [retreat?]
  | cons w s ih =>
    unfold retreat?
    split
    · next hw => simpa [hw] using ih
    · next hw => simp [hw]

theorem retreat?_root (hv : v ∉ seen) : g.retreat? seen [v] =
    some (v, (g.predecessors v).filter (· ∉ v :: seen)) := by
  simp [retreat?, hv]

theorem misplaced?_cons_of_seen (hv : v ∈ seen) :
    g.misplaced? seen (v :: s) = g.misplaced? seen s := by
  rw [misplaced?, retreat?_eq_none_iff.2 (by simpa using hv)]

/-- The walk backwards that goes on to `w` starts at a vertex `v` that `w` leads to. -/
theorem misplaced?_eq_some (h : g.misplaced? seen s = some w) : ∃ done v rest,
    s = done ++ v :: rest ∧ g.Edge w v ∧ w ∉ seen ++ done := by
  induction s generalizing seen with
  | nil => simp [misplaced?] at h
  | cons root s ih =>
    by_cases hroot : root ∈ seen
    · rw [misplaced?_cons_of_seen hroot] at h
      obtain ⟨done, v, rest, rfl, hedge, hw⟩ := ih h
      refine ⟨root :: done, v, rest, rfl, hedge, ?_⟩
      rw [List.perm_middle.mem_iff, List.mem_cons, not_or]
      exact ⟨fun e => hw (List.mem_append_left _ (e ▸ hroot)), hw⟩
    · simp only [misplaced?, retreat?_root hroot] at h
      split at h
      · obtain ⟨done, v, rest, rfl, hedge, hw⟩ := ih h
        refine ⟨root :: done, v, rest, rfl, hedge, ?_⟩
        rwa [List.perm_middle.mem_iff]
      · next hsecond =>
        obtain rfl := Option.some.inj h
        obtain ⟨hw, hnew⟩ := retreat?_eq_some hsecond
        have hedge := mem_predecessors.1 (List.mem_filter.1 hw).1
        refine ⟨[], root, s, rfl, hedge, ?_⟩
        rw [List.append_nil]
        exact fun hw => hnew (List.mem_cons_of_mem _ hw)

theorem misplaced?_eq_none (h : g.misplaced? seen s = none) {done rest : List α}
    (hs : s = done ++ v :: rest) (hv : v ∉ seen ++ done) (huv : g.Edge u v) :
    u = v ∨ u ∈ seen ++ done := by
  induction s generalizing seen done with
  | nil => simp at hs
  | cons root s ih =>
    match done with
    | [] =>
      obtain ⟨rfl, -⟩ := List.cons.inj hs
      rw [List.append_nil] at hv ⊢
      by_contra hn
      have hu : u ∈ (g.predecessors root).filter (· ∉ root :: seen) :=
        List.mem_filter.2 ⟨mem_predecessors.2 huv, by simpa using hn⟩
      simp only [misplaced?, retreat?_root hv] at h
      split at h
      · next hsecond => exact hn (List.mem_cons.1 (retreat?_eq_none_iff.1 hsecond hu))
      · simp at h
    | _ :: done =>
      obtain ⟨rfl, rfl⟩ := List.cons.inj hs
      rw [List.perm_middle.mem_iff] at hv ⊢
      by_cases hroot : root ∈ seen
      · rw [misplaced?_cons_of_seen hroot] at h
        exact (ih h rfl (fun hv' => hv (List.mem_cons_of_mem _ hv'))).imp_right
          (List.mem_cons_of_mem _)
      · simp only [misplaced?, retreat?_root hroot] at h
        split at h
        · exact ih h rfl hv
        · simp at h

theorem not_edge_self_of_selfLoop? (hg : g.Closed) (h : g.selfLoop? = none) : ¬ g.Edge v v := by
  intro hv
  have hmem := (mem_postorder_vertices hg).2 (hg v v hv).1
  have hfound := List.find?_eq_none.1 h v
    (mem_discovered_of_mem_postorder hg (List.Subset.refl _) hmem)
  simp only [decide_eq_true_eq] at hfound
  exact hfound hv

theorem edge_self_of_selfLoop? (h : g.selfLoop? = some v) : g.Edge v v := by
  simpa [Edge] using List.find?_some h

theorem sorts_of_sort (hg : g.Closed) (h : g.sort = .ok order) : g.Sorts order := by
  unfold sort at h
  split at h
  · simp at h
  · next hself =>
    simp only at h
    split at h
    · simp at h
    · next hnone =>
      obtain rfl := Except.ok.inj h
      have hnodup : (g.postorder g.vertices).reverse.Nodup :=
        List.nodup_reverse.2 (nodup_postorder hg (List.Subset.refl _))
      refine ⟨hnodup, fun v => by rw [List.mem_reverse, mem_postorder_vertices hg], ?_⟩
      intro done v rest hl u huv
      have hv : v ∉ done := by
        intro hv
        rw [hl] at hnodup
        exact (List.nodup_append.1 hnodup).2.2 v hv v List.mem_cons_self rfl
      rcases misplaced?_eq_none hnone hl hv huv with rfl | hu
      · exact absurd huv (not_edge_self_of_selfLoop? hg hself)
      · exact hu

/-- The vertex that a sort names in place of an order lies on a cycle. The second vertex of a walk
backwards was left before its successor, the first. -/
theorem cycle_of_sort (hg : g.Closed) (h : g.sort = .error w) : TransGen g.Edge w w := by
  unfold sort at h
  split at h
  · next hself =>
    obtain rfl := Except.error.inj h
    exact .single (edge_self_of_selfLoop? hself)
  · simp only at h
    split at h
    · next hsome =>
      rw [Except.error.inj h] at hsome
      obtain ⟨done, v, rest, hl, hedge, hdone⟩ := misplaced?_eq_some hsome
      by_cases hwv : w = v
      · exact .single (hwv ▸ hedge)
      · have hw : w ∈ (g.postorder g.vertices).reverse := by
          rw [List.mem_reverse, mem_postorder_vertices hg]
          exact (hg w v hedge).1
        have hw : w ∈ rest := by
          rw [hl] at hw
          rw [List.nil_append] at hdone
          simpa [hdone, hwv] using hw
        obtain ⟨between, last, rfl⟩ := List.append_of_mem hw
        have hleft : g.postorder g.vertices =
            last.reverse ++ w :: (between.reverse ++ v :: done.reverse) := by
          rw [← List.reverse_reverse (g.postorder g.vertices), hl]
          simp
        have hnodup := nodup_postorder hg (List.Subset.refl g.vertices)
        refine transGen_of_left_before (heeds_postorder hg (List.Subset.refl _)) hleft hedge ?_
        intro hv
        rw [hleft] at hnodup
        exact (List.nodup_append.1 hnodup).2.2 v hv v (by simp) rfl
    · simp at h

theorem exists_sort_iff_acyclic (hg : g.Closed) :
    (∃ order, g.sort = .ok order) ↔ g.Acyclic := by
  constructor
  · rintro ⟨order, h⟩
    exact (sorts_of_sort hg h).acyclic hg
  · intro h
    cases hsort : g.sort with
    | ok order => exact ⟨order, rfl⟩
    | error v => exact absurd (cycle_of_sort hg hsort) (h v)

theorem isAcyclic_iff (hg : g.Closed) : g.isAcyclic = true ↔ g.Acyclic := by
  rw [← exists_sort_iff_acyclic hg, isAcyclic]
  cases g.sort <;> simp

theorem edge_addEdge : (g.addEdge u v).Edge w x ↔ w = u ∧ x = v ∨ g.Edge w x := by
  simp [Edge]

/-- A path may or may not use the new edge; one that does leads to its start and on from its end. -/
theorem transGen_addEdge (h : TransGen (g.addEdge u v).Edge w x) :
    TransGen g.Edge w x ∨ ReflTransGen g.Edge w u ∧ ReflTransGen g.Edge v x := by
  induction h with
  | single h =>
    rcases edge_addEdge.1 h with ⟨rfl, rfl⟩ | h
    · exact .inr ⟨.refl, .refl⟩
    · exact .inl (.single h)
  | tail _ h ih =>
    rcases edge_addEdge.1 h, ih with ⟨⟨rfl, rfl⟩ | h, old | ⟨hu, hv⟩⟩
    · exact .inr ⟨old.to_reflTransGen, .refl⟩
    · exact .inr ⟨hu, .refl⟩
    · exact .inl (old.tail h)
    · exact .inr ⟨hu, hv.tail h⟩

theorem Acyclic.addEdge_iff (h : g.Acyclic) :
    (g.addEdge u v).Acyclic ↔ ¬ ReflTransGen g.Edge v u := by
  constructor
  · intro hnew hback
    have hold : g.Edge ≤ (g.addEdge u v).Edge := fun _ _ he => edge_addEdge.2 (.inr he)
    exact hnew u (.head' (edge_addEdge.2 (.inl ⟨rfl, rfl⟩)) (ReflTransGen.mono hold _ _ hback))
  · intro hback w hw
    rcases transGen_addEdge hw with hold | ⟨hu, hv⟩
    · exact h w hold
    · exact hback (hv.trans hu)

end Digraph

end Patchbay
