import Patchbay.Proofs.Digraph.Order

/-!
Emission: each vertex of a list in turn, behind those that it leads to. Where no vertex leads back
to itself, this is the order in which a walk leaves vertices. What is emitted for two lists one
after the other is what is emitted for the first, and then what the second adds to it.
-/
namespace Patchbay

open Relation

variable {α : Type}

/-- The vertices emitted for a list after those that were emitted before: for each that is new,
first those that it leads to, and then itself. -/
inductive Emits (next : α → List α) : List α → List α → List α → Prop
  | done (out : List α) : Emits next out [] out
  | known {out out' s : List α} {v : α} (hv : v ∈ out) (hrest : Emits next out s out') :
      Emits next out (v :: s) out'
  | new {out below out' s : List α} {v : α} (hv : v ∉ out) (hfirst : Emits next out (next v) below)
      (hrest : Emits next (below ++ [v]) s out') : Emits next out (v :: s) out'

namespace Emits

variable {next next' : α → List α} {out out' out'' s t base : List α} {v w : α}

theorem functional (h : Emits next out s out') (h' : Emits next out s out'') : out' = out'' := by
  induction h generalizing out'' with
  | done => cases h'; rfl
  | known hv _ ih =>
    cases h' with
    | known _ hrest' => exact ih hrest'
    | new hv' => exact absurd hv hv'
  | new hv _ _ ihfirst ihrest =>
    cases h' with
    | known hv' => exact absurd hv' hv
    | new _ hfirst' hrest' =>
      obtain rfl := ihfirst hfirst'
      exact ihrest hrest'

theorem append (h : Emits next out s out') (h' : Emits next out' t out'') :
    Emits next out (s ++ t) out'' := by
  induction h with
  | done => exact h'
  | known hv _ ih => exact .known hv (ih h')
  | new hv hfirst _ _ ihrest => exact .new hv hfirst (ihrest h')

theorem subset (h : Emits next out s out') : out ⊆ out' := by
  induction h with
  | done => exact List.Subset.refl _
  | known _ _ ih => exact ih
  | new _ _ _ ihfirst ihrest =>
    exact fun w hw => ihrest (List.mem_append_left _ (ihfirst hw))

theorem mem (h : Emits next out s out') : s ⊆ out' := by
  induction h with
  | done => exact List.nil_subset _
  | known hv hrest ih => exact List.cons_subset.2 ⟨hrest.subset hv, ih⟩
  | new _ _ hrest _ ihrest => exact List.cons_subset.2 ⟨hrest.subset (by simp), ihrest⟩

/-- Everything that is emitted comes with what it leads to. -/
theorem closed (h : Emits next out s out') (hout : ∀ v ∈ out, next v ⊆ out) :
    ∀ v ∈ out', next v ⊆ out' := by
  induction h with
  | done => exact hout
  | known _ _ ih => exact ih hout
  | @new out below out' s v _ hfirst _ ihfirst ihrest =>
    apply ihrest
    intro w hw
    apply List.subset_append_of_subset_left
    rcases List.mem_append.1 hw with hw | hw
    · exact ihfirst hout w hw
    · obtain rfl := List.mem_singleton.1 hw
      exact hfirst.mem

theorem closed_of_nil (h : Emits next [] s out) : ∀ v ∈ out, next v ⊆ out :=
  h.closed fun _ hv => absurd hv List.not_mem_nil

/-- What is emitted stands behind all that it leads to. -/
theorem heeds (h : Emits next out s out') (hout : Heeds (fun u v => u ∈ next v) out) :
    Heeds (fun u v => u ∈ next v) out' := by
  induction h with
  | done => exact hout
  | known _ _ ih => exact ih hout
  | new _ hfirst _ ihfirst ihrest =>
    apply ihrest
    apply (ihfirst hout).snoc
    intro u hu
    exact hfirst.mem hu

/-- What is emitted was asked for, or something that is emitted leads to it. -/
theorem origin (h : Emits next out s out') (hv : v ∈ out') :
    v ∈ out ∨ v ∈ s ∨ ∃ w ∈ out', v ∈ next w := by
  induction h with
  | done => exact .inl hv
  | known _ _ ih => exact (ih hv).imp_right (.imp_left (List.mem_cons_of_mem _))
  | @new out below out' s w _ hfirst hrest ihfirst ihrest =>
    rcases ihrest hv with hmem | hmem | hedge
    · rcases List.mem_append.1 hmem with hbelow | hw
      · rcases ihfirst hbelow with hold | hnext | ⟨u, hu, hedge⟩
        · exact .inl hold
        · exact .inr (.inr ⟨w, hrest.subset (by simp), hnext⟩)
        · exact .inr (.inr ⟨u, hrest.subset (List.mem_append_left _ hu), hedge⟩)
      · exact .inr (.inl (List.mem_singleton.1 hw ▸ List.mem_cons_self))
    · exact .inr (.inl (List.mem_cons_of_mem _ hmem))
    · exact .inr (.inr hedge)

/-- What nothing leads to is emitted if it is asked for. -/
theorem mem_iff_of_no_edge (h : Emits next [] s out) (hv : ∀ w, v ∉ next w) : v ∈ out ↔ v ∈ s := by
  constructor
  · intro hmem
    rcases h.origin hmem with hnil | hasked | ⟨w, -, hedge⟩
    · cases hnil
    · exact hasked
    · exact absurd hedge (hv w)
  · exact fun hasked => h.mem hasked

/-- Only the edges from what is emitted matter. -/
theorem congr (h : Emits next out s out') (hnext : ∀ v ∈ out', next v = next' v) :
    Emits next' out s out' := by
  induction h with
  | done => exact .done _
  | known hv _ ih => exact .known hv (ih hnext)
  | new hv hfirst hrest ihfirst ihrest =>
    refine .new hv ?_ (ihrest hnext)
    rw [← hnext _ (hrest.subset (by simp))]
    exact ihfirst fun w hw => hnext w (hrest.subset (List.mem_append_left _ hw))

/-- What was emitted before can be left out of the list. -/
theorem of_filter {p : α → Bool} (h : Emits next out (s.filter p) out')
    (hout : ∀ v ∈ s, p v = false → v ∈ out) : Emits next out s out' := by
  induction s generalizing out with
  | nil => exact h
  | cons v s ih =>
    obtain ⟨hv, hs⟩ := List.forall_mem_cons.1 hout
    cases hp : p v with
    | false =>
      rw [List.filter_cons_of_neg (by simp [hp])] at h
      exact .known (hv hp) (ih h hs)
    | true =>
      rw [List.filter_cons_of_pos hp] at h
      cases h with
      | known hv' hrest => exact .known hv' (ih hrest hs)
      | new hv' hfirst hrest =>
        refine .new hv' hfirst (ih hrest fun w hw hpw => ?_)
        exact List.mem_append_left _ (hfirst.subset (hs w hw hpw))

/-- Nothing is added for what was emitted before. -/
theorem of_subset (h : s ⊆ out) : Emits next out s out := by
  induction s with
  | nil => exact .done out
  | cons v s ih =>
    obtain ⟨hv, hs⟩ := List.cons_subset.1 h
    exact .known hv (ih hs)

/-- A list in which each vertex stands behind those that it leads to is emitted as it stands. -/
theorem of_heeds (h : Heeds (fun u v => u ∈ next v) s) (hs : s.Nodup) : Emits next [] s s := by
  induction s using List.reverseRecOn with
  | nil => exact .done []
  | append_singleton s v ih =>
    obtain ⟨hinit, hlast⟩ := h.of_snoc
    obtain ⟨hnodup, -, hdisjoint⟩ := List.nodup_append'.1 hs
    have hv : v ∉ s := fun hv => hdisjoint hv (List.mem_singleton_self v)
    apply (ih hinit hnodup).append
    exact .new hv (of_subset hlast) (.done _)

section Filter

variable [DecidableEq α]

/-- What leads to nothing outside of a set adds nothing outside of it. -/
theorem filter_eq (h : Emits next out s out') (hbase : ∀ v ∈ base, next v ⊆ base)
    (hs : s ⊆ base) : out'.filter (· ∉ base) = out.filter (· ∉ base) := by
  induction h with
  | done => rfl
  | known _ _ ih => exact ih (List.cons_subset.1 hs).2
  | new _ _ _ ihfirst ihrest =>
    obtain ⟨hv, hs⟩ := List.cons_subset.1 hs
    rw [ihrest hs, List.filter_append, ihfirst (hbase _ hv)]
    simp [hv]

/-- After vertices that lead only to each other, the same is emitted but for these. -/
theorem behind (h : Emits next out s out') (hbase : ∀ v ∈ base, next v ⊆ base) :
    Emits next (base ++ out.filter (· ∉ base)) s (base ++ out'.filter (· ∉ base)) := by
  induction h with
  | done => exact .done _
  | @known out out' s v hv _ ih =>
    refine .known ?_ ih
    by_cases hmem : v ∈ base <;> simp [hv, hmem]
  | @new out below out' s v hv hfirst _ ihfirst ihrest =>
    by_cases hmem : v ∈ base
    · rw [List.filter_append, hfirst.filter_eq hbase (hbase v hmem)] at ihrest
      exact .known (List.mem_append_left _ hmem) (by simpa [hmem] using ihrest)
    · refine .new (by simp [hv, hmem]) ihfirst ?_
      simpa [List.filter_append, hmem] using ihrest

/-- Lists one after the other emit what the first emits, and what the second adds to that. -/
theorem append_filter (h : Emits next [] s out) (h' : Emits next [] t out') :
    Emits next [] (s ++ t) (out ++ out'.filter (· ∉ out)) := by
  have hbehind := h'.behind h.closed_of_nil
  rw [List.filter_nil, List.append_nil] at hbehind
  exact h.append hbehind

end Filter

end Emits

namespace Digraph

variable [DecidableEq α] {g : Digraph α} {m m' : Marks α} {s roots : List α}

/-- Without cycles the successors that a walk does not put on its stack were left before. -/
theorem Visit.emits (h : g.Visit m s m') (hg : g.Acyclic) (hsound : m.Sound)
    (hopen : ∀ u, m.Open u → ∀ v ∈ s, ReflTransGen g.Edge u v) :
    Emits g.successors m.finished s m'.finished := by
  induction h with
  | done => exact .done _
  | pass hv _ ih => exact .known hv (ih hsound fun u hu w hw => hopen u hu w (.tail _ hw))
  | @enter m below m' v s _ hnew hahead _ ihahead ihrest =>
    have hv : v ∉ m.finished := fun hv => hnew (hsound hv)
    have hbelow := hahead.sound (hsound.discover v)
    have hentered : v ∈ below.discovered := hahead.discovered_subset (by simp)
    have hopened : ∀ u, below.Open u ↔ u = v ∨ m.Open u := fun u => by
      rw [hahead.open_iff (hsound.discover v), Marks.open_discover hnew hsound]
    have hv' : v ∉ below.finished := ((hopened v).2 (.inl rfl)).2
    have hfirst : Emits g.successors m.finished (g.ahead m v) below.finished := by
      apply ihahead (hsound.discover v)
      intro u hu w hw
      have hvw : g.Edge v w := (mem_ahead.1 hw).1
      rcases (Marks.open_discover hnew hsound).1 hu with rfl | hu
      · exact .single hvw
      · exact (hopen u hu v List.mem_cons_self).tail hvw
    refine .new hv (hfirst.of_filter fun u hu hp => ?_) ?_
    · have hvu : g.Edge v u := mem_successors.1 hu
      have hne : u ≠ v := fun e => hg v (.single (e ▸ hvu))
      have hold : u ∈ m.discovered := by simpa [hne] using hp
      -- A successor that is open still would close a circle.
      by_contra hleft
      exact hg v (.head' hvu (hopen u ⟨hold, hleft⟩ v List.mem_cons_self))
    · rw [← Marks.finished_finish_of_notMem hv']
      apply ihrest (hbelow.finish hentered)
      intro u hu w hw
      obtain ⟨hne, hu⟩ := Marks.open_finish.1 hu
      exact hopen u (((hopened u).1 hu).resolve_left hne) w (List.mem_cons_of_mem _ hw)

/-- The order in which a walk leaves vertices, by recursion along the edges. -/
theorem Acyclic.emits_postorder (h : g.Acyclic) (hg : g.Closed) (hroots : roots ⊆ g.vertices) :
    Emits g.successors [] roots (g.postorder roots) :=
  (visit_roots hg hroots).emits h (List.nil_subset _) fun _ hu => absurd hu.1 List.not_mem_nil

end Digraph

end Patchbay
