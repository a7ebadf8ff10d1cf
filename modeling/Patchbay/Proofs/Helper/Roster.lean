import Patchbay.Helper.Catalogue
import Patchbay.Proofs.Digraph.Walk

/-!
Rosters. The way through requests and needs is recursion: a unit that is met for the first time is
kept, and its needs are met before anything else. In the roster that comes of it the edges from a
kept unit lead to the units kept for its needs, in their order.
-/
namespace Patchbay.Catalogue

open Relation

variable {ι : Type} {c : Catalogue ι}

/-- The units that are kept on the way through a list of units, after those that were kept before.
A unit whose name is taken is passed over, and so are its needs. -/
inductive Keeps (c : Catalogue ι) : List ι → List ι → List ι → Prop
  | done (kept : List ι) : Keeps c kept [] kept
  | known {kept kept' s : List ι} {i j : ι} (hj : j ∈ kept) (hname : c.name j = c.name i)
      (hrest : Keeps c kept s kept') : Keeps c kept (i :: s) kept'
  | new {kept below kept' s : List ι} {i : ι} (hi : ∀ j ∈ kept, c.name j ≠ c.name i)
      (hneeds : Keeps c (kept ++ [i]) (c.needs i) below) (hrest : Keeps c below s kept') :
      Keeps c kept (i :: s) kept'

namespace Keeps

variable {kept kept' kept'' s : List ι}

theorem functional (h : c.Keeps kept s kept') (h' : c.Keeps kept s kept'') : kept' = kept'' := by
  induction h generalizing kept'' with
  | done => cases h'; rfl
  | known hj hname _ ih =>
    cases h' with
    | known _ _ hrest' => exact ih hrest'
    | new hi => exact absurd hname (hi _ hj)
  | new hi _ _ ihneeds ihrest =>
    cases h' with
    | known hj hname => exact absurd hname (hi _ hj)
    | new _ hneeds' hrest' =>
      obtain rfl := ihneeds hneeds'
      exact ihrest hrest'

theorem nodup_names (h : c.Keeps kept s kept') (hkept : (kept.map c.name).Nodup) :
    (kept'.map c.name).Nodup := by
  induction h with
  | done => exact hkept
  | known _ _ _ ih => exact ih hkept
  | new hi _ _ ihneeds ihrest =>
    apply ihrest
    apply ihneeds
    rw [List.map_append, List.nodup_append']
    refine ⟨hkept, List.nodup_singleton _, ?_⟩
    simpa [List.disjoint_left] using hi

end Keeps

namespace Roster

/-- Units and edges have only been added, and at the end. -/
structure Grows (r r' : Roster ι) : Prop where
  units : r.units <+: r'.units
  edges : r.edges <+: r'.edges

namespace Grows

theorem refl (r : Roster ι) : Grows r r := ⟨List.prefix_rfl, List.prefix_rfl⟩

theorem trans {r r' r'' : Roster ι} (h : Grows r r') (h' : Grows r' r'') : Grows r r'' :=
  ⟨h.units.trans h'.units, h.edges.trans h'.edges⟩

theorem add (r : Roster ι) (i : ι) : Grows r (r.add i) :=
  ⟨List.prefix_append _ _, List.prefix_rfl⟩

theorem linkFrom (r : Roster ι) (parent : Option ι) (i : ι) : Grows r (r.linkFrom parent i) := by
  cases parent
  · exact refl r
  · exact ⟨List.prefix_rfl, List.prefix_append _ _⟩

end Grows

theorem closed_empty : (Roster.empty : Roster ι).graph.Closed := fun _ _ h => absurd h List.not_mem_nil

theorem closed_add {r : Roster ι} (h : r.graph.Closed) (i : ι) : (r.add i).graph.Closed :=
  fun v w hvw => ⟨List.mem_append_left _ (h v w hvw).1, List.mem_append_left _ (h v w hvw).2⟩

theorem closed_linkFrom {r : Roster ι} {parent : Option ι} {i : ι} (h : r.graph.Closed)
    (hparent : ∀ p, parent = some p → p ∈ r.units) (hi : i ∈ r.units) :
    (r.linkFrom parent i).graph.Closed := by
  cases parent with
  | none => exact h
  | some p =>
    intro v w hvw
    rcases List.mem_append.1 hvw with hvw | hvw
    · exact h v w hvw
    · obtain ⟨rfl, rfl⟩ := Prod.mk.inj (List.mem_singleton.1 hvw)
      exact ⟨hparent v rfl, hi⟩

variable [DecidableEq ι]

theorem successors_linkFrom (r : Roster ι) (parent : Option ι) (i x : ι) :
    (r.linkFrom parent i).graph.successors x =
      r.graph.successors x ++ if parent = some x then [i] else [] := by
  cases parent with
  | none => simp [linkFrom]
  | some p => by_cases h : p = x <;> simp [linkFrom, link, graph, Digraph.successors, h]

theorem successors_add (r : Roster ι) (i x : ι) :
    (r.add i).graph.successors x = r.graph.successors x := rfl

theorem successors_of_notMem {r : Roster ι} {i : ι} (h : r.graph.Closed) (hi : i ∉ r.units) :
    r.graph.successors i = [] := by
  refine List.eq_nil_iff_forall_not_mem.2 fun j hj => hi ?_
  exact (h i j (Digraph.mem_successors.1 hj)).1

end Roster

open Roster

variable {r r' final : Roster ι} {parent : Option ι} {s : List ι} {i j x : ι} {n : String}

theorem mem_of_kept? (h : c.kept? r n = some j) : j ∈ r.units ∧ c.name j = n :=
  ⟨List.mem_of_find?_eq_some h, by simpa using List.find?_some h⟩

theorem kept?_eq_none_iff : c.kept? r n = none ↔ ∀ j ∈ r.units, c.name j ≠ n := by
  simp [kept?]

theorem notMem_of_kept?_eq_none (h : c.kept? r (c.name i) = none) : i ∉ r.units :=
  fun hi => kept?_eq_none_iff.1 h i hi rfl

theorem kept?_add_self (h : c.kept? r (c.name i) = none) :
    c.kept? (r.add i) (c.name i) = some i := by
  unfold kept? at h ⊢
  simp [h]

theorem kept?_of_grows (hgrows : Grows r r') (h : c.kept? r n = some j) :
    c.kept? r' n = some j := by
  obtain ⟨more, hmore⟩ := hgrows.units
  unfold kept? at h ⊢
  rw [← hmore, List.find?_append, h, Option.some_or]

/-- The units that are kept for a list of units. -/
def keptFor (c : Catalogue ι) (r : Roster ι) (s : List ι) : List ι :=
  s.filterMap fun i => c.kept? r (c.name i)

theorem keptFor_cons (h : c.kept? r (c.name i) = some j) :
    c.keptFor r (i :: s) = j :: c.keptFor r s := by
  simp [keptFor, h]

/-- What comes of meeting a list of units, as needs of the parent or as requests. -/
inductive Meets (c : Catalogue ι) : Roster ι → Option ι → List ι → Roster ι → Prop
  | done (r : Roster ι) (parent : Option ι) : Meets c r parent [] r
  | known {r r' : Roster ι} {parent : Option ι} {i j : ι} {s : List ι}
      (hj : c.kept? r (c.name i) = some j) (hrest : Meets c (r.linkFrom parent j) parent s r') :
      Meets c r parent (i :: s) r'
  | new {r below r' : Roster ι} {parent : Option ι} {i : ι} {s : List ι}
      (hi : c.kept? r (c.name i) = none) (hneeds : Meets c (r.add i) (some i) (c.needs i) below)
      (hrest : Meets c (below.linkFrom parent i) parent s r') : Meets c r parent (i :: s) r'

namespace Meets

theorem grows (h : c.Meets r parent s r') : Grows r r' := by
  induction h with
  | done => exact .refl _
  | known _ _ ih => exact (Grows.linkFrom _ _ _).trans ih
  | new _ _ _ ihneeds ihrest =>
    exact (Grows.add _ _).trans (ihneeds.trans ((Grows.linkFrom _ _ _).trans ihrest))

theorem kept?_of_new {below : Roster ι} (hi : c.kept? r (c.name i) = none)
    (hneeds : c.Meets (r.add i) (some i) (c.needs i) below)
    (hfinal : Grows below final) : c.kept? final (c.name i) = some i :=
  kept?_of_grows (hneeds.grows.trans hfinal) (kept?_add_self hi)

theorem keeps (h : c.Meets r parent s r') : c.Keeps r.units s r'.units := by
  induction h with
  | done => exact .done _
  | known hj _ ih =>
    rw [units_linkFrom] at ih
    exact .known (mem_of_kept? hj).1 (mem_of_kept? hj).2 ih
  | new hi _ _ ihneeds ihrest =>
    rw [units_linkFrom] at ihrest
    exact .new (kept?_eq_none_iff.1 hi) ihneeds ihrest

theorem closed (h : c.Meets r parent s r') (hr : r.graph.Closed)
    (hparent : ∀ p, parent = some p → p ∈ r.units) : r'.graph.Closed := by
  induction h with
  | done => exact hr
  | known hj _ ih =>
    apply ih (closed_linkFrom hr hparent (mem_of_kept? hj).1)
    intro p hp
    rw [units_linkFrom]
    exact hparent p hp
  | @new r below r' parent i s hi hneeds _ ihneeds ihrest =>
    have hadd : i ∈ (r.add i).units := by simp
    have hbelow := ihneeds (closed_add hr i) fun p hp => Option.some.inj hp ▸ hadd
    have hparent' : ∀ p, parent = some p → p ∈ below.units := fun p hp =>
      ((Grows.add r i).trans hneeds.grows).units.subset (hparent p hp)
    apply ihrest (closed_linkFrom hbelow hparent' (hneeds.grows.units.subset hadd))
    intro p hp
    rw [units_linkFrom]
    exact hparent' p hp

/-- Every unit that is met is known in the end, and the parent is linked to the unit kept for it. -/
theorem exists_kept (h : c.Meets r parent s r') (hi : i ∈ s) :
    ∃ j, c.kept? r' (c.name i) = some j ∧ ∀ p, parent = some p → r'.graph.Edge p j := by
  have linked {r r' : Roster ι} {parent : Option ι} {p j : ι} (hp : parent = some p)
      (hgrows : Grows (r.linkFrom parent j) r') : r'.graph.Edge p j := by
    apply hgrows.edges.subset
    simp [hp, linkFrom, link]
  induction h with
  | done => exact absurd hi List.not_mem_nil
  | known hj hrest ih =>
    rcases List.mem_cons.1 hi with rfl | hi
    · exact ⟨_, kept?_of_grows ((Grows.linkFrom _ _ _).trans hrest.grows) hj,
        fun p hp => linked hp hrest.grows⟩
    · exact ih hi
  | new hnone hneeds hrest _ ihrest =>
    rcases List.mem_cons.1 hi with rfl | hi
    · exact ⟨_, kept?_of_new hnone hneeds ((Grows.linkFrom _ _ _).trans hrest.grows),
        fun p hp => linked hp hrest.grows⟩
    · exact ihrest hi

/-- The needs of a unit that is kept on the way are met as well. -/
theorem exists_kept_of_needs (h : c.Meets r parent s r') (hx : x ∈ r'.units) (hi : i ∈ c.needs x) :
    x ∈ r.units ∨ ∃ j, c.kept? r' (c.name i) = some j := by
  induction h with
  | done => exact .inl hx
  | known _ _ ih => simpa using ih hx
  | @new r below r' parent k s hnone hneeds hrest ihneeds ihrest =>
    have hgrows : Grows below r' := (Grows.linkFrom _ _ _).trans hrest.grows
    rcases ihrest hx with hbelow | hmet
    · rw [units_linkFrom] at hbelow
      rcases ihneeds hbelow with hadd | ⟨j, hj⟩
      · rcases List.mem_append.1 hadd with hold | hk
        · exact .inl hold
        · obtain rfl := List.mem_singleton.1 hk
          obtain ⟨j, hj, -⟩ := hneeds.exists_kept hi
          exact .inr ⟨j, kept?_of_grows hgrows hj⟩
      · exact .inr ⟨j, kept?_of_grows hgrows hj⟩
    · exact .inr hmet

/-- Every unit that is kept on the way is led to by the units that are kept for the list. -/
theorem reachable (h : c.Meets r parent s r') (hx : x ∈ r'.units) : x ∈ r.units ∨
    ∃ i ∈ s, ∃ j, c.kept? r' (c.name i) = some j ∧ ReflTransGen r'.graph.Edge j x := by
  induction h with
  | done => exact .inl hx
  | known _ _ ih =>
    rcases ih hx with hold | ⟨i, hi, hreach⟩
    · exact .inl (by simpa using hold)
    · exact .inr ⟨i, List.mem_cons_of_mem _ hi, hreach⟩
  | @new r below r' parent k s hnone hneeds hrest ihneeds ihrest =>
    have hgrows : Grows below r' := (Grows.linkFrom _ _ _).trans hrest.grows
    have hk : c.kept? r' (c.name k) = some k := kept?_of_new hnone hneeds hgrows
    rcases ihrest hx with hbelow | ⟨i, hi, hreach⟩
    · rw [units_linkFrom] at hbelow
      rcases ihneeds hbelow with hadd | ⟨i, hi, j, hj, hreach⟩
      · rcases List.mem_append.1 hadd with hold | hx
        · exact .inl hold
        · obtain rfl := List.mem_singleton.1 hx
          exact .inr ⟨_, List.mem_cons_self, _, hk, .refl⟩
      · obtain ⟨j', hj', hlink⟩ := hneeds.exists_kept hi
        obtain rfl : j = j' := Option.some.inj (hj.symm.trans hj')
        have hedges : below.graph.Edge ≤ r'.graph.Edge := fun _ _ h => hgrows.edges.subset h
        exact .inr ⟨k, List.mem_cons_self, k, hk,
          .head (hedges _ _ (hlink k rfl)) (ReflTransGen.mono hedges _ _ hreach)⟩
    · exact .inr ⟨i, List.mem_cons_of_mem _ hi, hreach⟩

/-- Of the units that were there only the parent gets edges, one for each unit of the list. -/
theorem successors_of_mem [DecidableEq ι] (h : c.Meets r parent s r') (hfinal : Grows r' final)
    (hx : x ∈ r.units) : r'.graph.successors x =
      r.graph.successors x ++ if parent = some x then c.keptFor final s else [] := by
  induction h with
  | done => simp [keptFor]
  | @known r r' parent i j s hj hrest ih =>
    have hj' := kept?_of_grows (((Grows.linkFrom r parent j).trans hrest.grows).trans hfinal) hj
    rw [ih hfinal (by simpa using hx), successors_linkFrom, keptFor_cons hj']
    by_cases hp : parent = some x <;> simp [hp]
  | @new r below r' parent i s hi hneeds hrest ihneeds ihrest =>
    have hgrows : Grows below final := ((Grows.linkFrom _ _ _).trans hrest.grows).trans hfinal
    have hadd : x ∈ (r.add i).units := (Grows.add r i).units.subset hx
    have hbelow : x ∈ below.units := hneeds.grows.units.subset hadd
    have hne : some i ≠ some x := fun e => notMem_of_kept?_eq_none hi (Option.some.inj e ▸ hx)
    have hsame : below.graph.successors x = r.graph.successors x := by
      rw [ihneeds hgrows hadd, if_neg hne, List.append_nil, successors_add]
    rw [ihrest hfinal (by simpa using hbelow), successors_linkFrom, hsame,
      keptFor_cons (kept?_of_new hi hneeds hgrows)]
    by_cases hp : parent = some x <;> simp [hp]

/-- The edges from a unit that is kept on the way lead to the units that are kept for its needs. -/
theorem successors_of_new [DecidableEq ι] (h : c.Meets r parent s r') (hr : r.graph.Closed)
    (hparent : ∀ p, parent = some p → p ∈ r.units) (hfinal : Grows r' final) (hx : x ∈ r'.units)
    (hnew : x ∉ r.units) : r'.graph.successors x = c.keptFor final (c.needs x) := by
  induction h with
  | done => exact absurd hx hnew
  | @known r r' parent i j s hj _ ih =>
    exact ih (closed_linkFrom hr hparent (mem_of_kept? hj).1) (by simpa using hparent) hfinal hx
      (by simpa using hnew)
  | @new r below r' parent i s hi hneeds hrest ihneeds ihrest =>
    have hgrows : Grows below final := ((Grows.linkFrom _ _ _).trans hrest.grows).trans hfinal
    have hclosed := closed_add hr i
    have hi' : ∀ p, some i = some p → p ∈ (r.add i).units := fun p hp => by
      simp [Option.some.inj hp]
    have hbelow := hneeds.closed hclosed hi'
    have hparent' : ∀ p, parent = some p → p ∈ below.units := fun p hp =>
      ((Grows.add r i).trans hneeds.grows).units.subset (hparent p hp)
    by_cases hmet : x ∈ below.units
    · have hp : parent ≠ some x := fun hp => hnew (hparent x hp)
      rw [hrest.successors_of_mem hfinal (by simpa using hmet), successors_linkFrom, if_neg hp,
        if_neg hp, List.append_nil, List.append_nil]
      by_cases hxi : x = i
      · subst hxi
        -- The unit itself has no edges yet when its needs are met.
        rw [hneeds.successors_of_mem hgrows (by simp), successors_add,
          successors_of_notMem hr hnew, if_pos rfl, List.nil_append]
      · exact ihneeds hclosed hi' hgrows hmet (by simpa using ⟨hnew, hxi⟩)
    · exact ihrest (closed_linkFrom hbelow hparent' (hneeds.grows.units.subset (by simp)))
        (by simpa using hparent') hfinal hx (by simpa using hmet)

end Meets

theorem register_link (i j : ι) (rest : List (Task ι)) :
    c.register r (.link i j :: rest) = c.register (r.link i j) rest := by
  rw [register]

theorem register_known (h : c.kept? r (c.name i) = some j) (rest : List (Task ι)) :
    c.register r (.meet parent i :: rest) = c.register (r.linkFrom parent j) rest := by
  rw [register]
  split <;> simp_all

theorem register_new (h : c.kept? r (c.name i) = none) (rest : List (Task ι)) :
    c.register r (.meet parent i :: rest) = c.register (r.add i)
      ((c.needs i).map (.meet (some i)) ++ (parent.map (.link · i)).toList ++ rest) := by
  rw [register]
  split <;> simp_all

theorem register_linkFrom (parent : Option ι) (i : ι) (rest : List (Task ι)) :
    c.register r ((parent.map (.link · i)).toList ++ rest) =
      c.register (r.linkFrom parent i) rest := by
  cases parent with
  | none => rfl
  | some p => exact register_link p i rest

theorem length_unmet_le (h : Grows r r') : (c.unmet r').length ≤ (c.unmet r).length := by
  apply List.Sublist.length_le
  apply List.monotone_filter_right
  intro n hn
  simp only [Option.isNone_iff_eq_none] at hn ⊢
  by_contra hne
  obtain ⟨j, hj⟩ := Option.ne_none_iff_exists'.1 hne
  simp [kept?_of_grows h hj] at hn

/-- Tasks to meet a list of units are done by recursion. -/
theorem exists_meets (c : Catalogue ι) (r : Roster ι) (parent : Option ι) (s : List ι) :
    ∃ r', c.Meets r parent s r' ∧
      ∀ rest, c.register r (s.map (.meet parent) ++ rest) = c.register r' rest := by
  match s with
  | [] => exact ⟨r, .done r parent, fun _ => rfl⟩
  | i :: s =>
    cases hi : c.kept? r (c.name i) with
    | some j =>
      have hsame : (c.unmet (r.linkFrom parent j)).length = (c.unmet r).length := by simp
      obtain ⟨r', hmeets, hregister⟩ := exists_meets c (r.linkFrom parent j) parent s
      refine ⟨r', .known hi hmeets, ?_⟩
      intro rest
      rw [List.map_cons, List.cons_append, register_known hi, hregister]
    | none =>
      have hfewer := unmet_add_lt hi
      obtain ⟨below, hneeds, hbelow⟩ := exists_meets c (r.add i) (some i) (c.needs i)
      have hfewer' : (c.unmet (below.linkFrom parent i)).length < (c.unmet r).length :=
        Nat.lt_of_le_of_lt (length_unmet_le (hneeds.grows.trans (.linkFrom _ _ _))) hfewer
      obtain ⟨r', hmeets, hregister⟩ := exists_meets c (below.linkFrom parent i) parent s
      refine ⟨r', .new hi hneeds hmeets, ?_⟩
      intro rest
      rw [List.map_cons, List.cons_append, register_new hi, List.append_assoc, hbelow,
        register_linkFrom, hregister]
termination_by ((c.unmet r).length, s.length)
decreasing_by
  · exact Prod.Lex.left _ _ hfewer
  · exact Prod.Lex.left _ _ hfewer'
  · rw [hsame]
    exact Prod.Lex.right _ (by simp)

variable {requests : List ι}

theorem meets_roster (c : Catalogue ι) (requests : List ι) :
    c.Meets .empty none requests (c.roster requests) := by
  obtain ⟨r, hmeets, hregister⟩ := c.exists_meets .empty none requests
  have hr : c.roster requests = r := by
    rw [roster, ← List.append_nil (requests.map _), hregister, register]
  exact hr ▸ hmeets

theorem keeps_roster (c : Catalogue ι) (requests : List ι) :
    c.Keeps [] requests (c.roster requests).units := (c.meets_roster requests).keeps

theorem closed_roster (c : Catalogue ι) (requests : List ι) :
    (c.roster requests).graph.Closed :=
  (c.meets_roster requests).closed closed_empty fun _ hp => by simp at hp

theorem keptFor_subset_units : c.keptFor r s ⊆ r.units := by
  intro j hj
  obtain ⟨i, -, hi⟩ := List.mem_filterMap.1 hj
  exact (mem_of_kept? hi).1

theorem reachable_roster (hx : x ∈ (c.roster requests).units) :
    ∃ j ∈ c.keptFor (c.roster requests) requests,
      ReflTransGen (c.roster requests).graph.Edge j x := by
  rcases (c.meets_roster requests).reachable hx with hold | ⟨i, hi, j, hj, hreach⟩
  · exact absurd hold List.not_mem_nil
  · exact ⟨j, List.mem_filterMap.2 ⟨i, hi, hj⟩, hreach⟩

theorem exists_kept_roster (hx : x ∈ (c.roster requests).units) (hi : i ∈ c.needs x) :
    ∃ j, c.kept? (c.roster requests) (c.name i) = some j :=
  ((c.meets_roster requests).exists_kept_of_needs hx hi).resolve_left List.not_mem_nil

theorem successors_roster [DecidableEq ι] (hx : x ∈ (c.roster requests).units) :
    (c.roster requests).graph.successors x = c.keptFor (c.roster requests) (c.needs x) :=
  (c.meets_roster requests).successors_of_new closed_empty (fun _ hp => by simp at hp) (.refl _) hx
    List.not_mem_nil

end Patchbay.Catalogue
