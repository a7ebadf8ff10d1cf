import Patchbay.Proofs.Helper.Emission

/-!
Requests one after the other. Where names are distinct, a list of requests is resolved if those that
it is put together from are, and the units of the first come in front. A request that is repeated
changes nothing, and the list of the units asks for the same list again.
-/
namespace Patchbay.Catalogue

open Relation

variable {ι : Type} {c : Catalogue ι} {requests more again units others both : List ι} {i j : ι}

section Repeated

theorem register_of_known {r : Roster ι} (tasks : List (Task ι))
    (h : ∀ i ∈ again, ∃ j, c.kept? r (c.name i) = some j) :
    c.register r (again.map (.meet none) ++ tasks) = c.register r tasks := by
  induction again with
  | nil => rfl
  | cons i again ih =>
    obtain ⟨⟨j, hj⟩, hagain⟩ := List.forall_mem_cons.1 h
    rw [List.map_cons, List.cons_append, register_known hj]
    exact ih hagain

theorem roster_repeated (hagain : again ⊆ requests) :
    c.roster (requests ++ again ++ more) = c.roster (requests ++ more) := by
  obtain ⟨r, hmeets, hregister⟩ := c.exists_meets .empty none requests
  have hknown : ∀ i ∈ again, ∃ j, c.kept? r (c.name i) = some j := by
    intro i hi
    obtain ⟨j, hj, -⟩ := hmeets.exists_kept (hagain hi)
    exact ⟨j, hj⟩
  simp only [roster, List.map_append, List.append_assoc]
  rw [hregister, hregister, register_of_known _ hknown]

variable [DecidableEq ι]

theorem listed_repeated (hagain : again ⊆ requests) :
    c.listed (requests ++ again ++ more) = c.listed (requests ++ more) := by
  have hroots : c.keptFor (c.roster (requests ++ more)) requests ⊆
      (c.roster (requests ++ more)).graph.vertices := keptFor_subset_units
  have hvisit := Digraph.visit_roots (closed_roster c (requests ++ more)) hroots
  have hleft : c.keptFor (c.roster (requests ++ more)) again ⊆
      ((c.roster (requests ++ more)).graph.explore .empty
        (c.keptFor (c.roster (requests ++ more)) requests)).finished :=
    List.Subset.trans (List.filterMap_subset _ hagain) hvisit.mem_finished
  have happend (s t : List ι) : c.keptFor (c.roster (requests ++ more)) (s ++ t) =
      c.keptFor (c.roster (requests ++ more)) s ++ c.keptFor (c.roster (requests ++ more)) t :=
    List.filterMap_append
  rw [listed, listed, roster_repeated hagain, happend, happend, happend, Digraph.postorder,
    Digraph.postorder, Digraph.explore_append, Digraph.explore_append, Digraph.explore_append,
    Digraph.explore_of_finished (hvisit.sound (List.nil_subset _)) hleft]

/-- A request that is repeated changes nothing, whether there is a circle or not. -/
theorem resolve_repeated (hagain : again ⊆ requests) :
    c.resolve (requests ++ again ++ more) = c.resolve (requests ++ more) := by
  have hroster : c.roster (requests ++ again ++ more) = c.roster (requests ++ more) :=
    roster_repeated hagain
  cases hsort : (c.roster (requests ++ more)).graph.sort with
  | error i =>
    have hsort' := hroster ▸ hsort
    rw [resolve_of_sort_error hsort, resolve_of_sort_error hsort']
  | ok order =>
    have hsort' := hroster ▸ hsort
    rw [resolve_of_sort_ok hsort, resolve_of_sort_ok hsort', listed_repeated hagain]

end Repeated

theorem Reaches.trans (h : c.Reaches both i) (hboth : ∀ j ∈ both, c.Reaches requests j) :
    c.Reaches requests i := by
  obtain ⟨j, hj, hreach⟩ := h
  obtain ⟨r, hr, hreach'⟩ := hboth j hj
  exact ⟨r, hr, hreach'.trans hreach⟩

theorem Distinct.of_reaches (h : c.Distinct more)
    (hreach : ∀ i, c.Reaches requests i → c.Reaches more i) : c.Distinct requests := by
  intro i j hi hj
  exact h i j (hreach i hi) (hreach j hj)

theorem Distinct.mem_units_iff (h : c.Distinct requests) :
    i ∈ (c.roster requests).units ↔ c.Reaches requests i := by
  constructor
  · exact reaches_of_mem_units
  · intro hi
    exact (mem_of_kept? (h.kept?_eq hi)).1

variable [DecidableEq ι]

theorem Distinct.edge_iff (h : c.Distinct requests) :
    (c.roster requests).graph.Edge i j ↔ c.Reaches requests i ∧ j ∈ c.needs i := by
  rw [edge_roster, Requires, h.mem_units_iff, h.mem_units_iff]
  constructor
  · rintro ⟨hi, hj, d, hd, hname⟩
    obtain rfl : d = j := h d j (hi.need hd) hj hname
    exact ⟨hi, hd⟩
  · rintro ⟨hi, hj⟩
    exact ⟨hi, hi.need hj, j, hj, rfl⟩

/-- What leads to no more units than a list that is resolved is resolved too. -/
theorem Distinct.exists_resolve (h : c.Distinct more) (hmore : c.resolve more = .ok units)
    (hreach : ∀ i, c.Reaches requests i → c.Reaches more i) :
    ∃ units, c.resolve requests = .ok units := by
  have hacyclic := (resolve_eq_ok_iff.1 hmore).1
  refine ⟨_, resolve_eq_ok_iff.2 ⟨?_, rfl⟩⟩
  intro i hi
  apply hacyclic i
  apply TransGen.mono _ i i hi
  intro v w hvw
  obtain ⟨hv, hw⟩ := (h.of_reaches hreach).edge_iff.1 hvw
  exact h.edge_iff.2 ⟨hreach v hv, hw⟩

theorem Distinct.mem_iff_of_resolve (h : c.Distinct requests)
    (hunits : c.resolve requests = .ok units) : i ∈ units ↔ c.Reaches requests i := by
  rw [mem_units_iff_of_resolve hunits, h.mem_units_iff]

/-- Resolution finds the list that recursion gives. -/
theorem Distinct.resolve_eq (h : c.Distinct more) (hmore : c.resolve more = .ok units)
    (hreach : ∀ i, c.Reaches requests i → c.Reaches more i)
    (hemits : Emits c.needs [] requests units) : c.resolve requests = .ok units := by
  obtain ⟨units', hunits'⟩ := h.exists_resolve hmore hreach
  rw [hunits', ((h.of_reaches hreach).emits_of_resolve hunits').functional hemits]

theorem Distinct.resolve_units (h : c.Distinct requests) (hunits : c.resolve requests = .ok units) :
    c.resolve units = .ok units := by
  apply h.resolve_eq hunits
  · intro i hi
    exact hi.trans fun j hj => (h.mem_iff_of_resolve hunits).1 hj
  · exact .of_heeds ((h.emits_of_resolve hunits).heeds .nil) (nodup_of_resolve hunits)

/-- What only later requests lead to stands behind all that earlier ones lead to. -/
theorem Distinct.sublist_of_resolve (h : c.Distinct (requests ++ more))
    (hunits : c.resolve requests = .ok units) (hmore : c.resolve more = .ok others)
    (hi : c.Reaches requests i) (hj : c.Reaches more j) (hlater : ¬ c.Reaches requests j) :
    [i, j].Sublist (units ++ others.filter (· ∉ units)) := by
  have hfirst := h.mono (List.subset_append_left requests more)
  have hsecond := h.mono (List.subset_append_right requests more)
  have hi' : i ∈ units := (hfirst.mem_iff_of_resolve hunits).2 hi
  have hj' : j ∈ others.filter (· ∉ units) := by
    rw [List.mem_filter, hsecond.mem_iff_of_resolve hmore, decide_eq_true_eq,
      hfirst.mem_iff_of_resolve hunits]
    exact ⟨hj, hlater⟩
  exact (List.singleton_sublist.2 hi').append (List.singleton_sublist.2 hj')

/-- Where names are distinct, a list of requests that is resolved is resolved part by part: the
units for its first part come in front, and then those that its second part adds, in the order in
which the second part alone has them. So what is needed earlier stands in front of what is only
needed later. The units ask for the same list again. A request that is repeated changes nothing. -/
theorem resolve_in_turn (h : c.Distinct (requests ++ more)) :
    (∀ both, c.resolve (requests ++ more) = .ok both →
      (∃ units others, c.resolve requests = .ok units ∧ c.resolve more = .ok others ∧
        both = units ++ others.filter (· ∉ units)) ∧
      both.Nodup ∧
      (∀ i j, c.Reaches requests i → c.Reaches more j → ¬ c.Reaches requests j →
        [i, j].Sublist both) ∧
      c.resolve both = .ok both) ∧
    ∀ again ⊆ requests, c.resolve (requests ++ again ++ more) = c.resolve (requests ++ more) := by
  refine ⟨?_, fun again hagain => resolve_repeated hagain⟩
  intro both hboth
  obtain ⟨units, hunits⟩ : ∃ units, c.resolve requests = .ok units :=
    h.exists_resolve hboth fun i hi => hi.mono (List.subset_append_left _ _)
  obtain ⟨others, hothers⟩ : ∃ others, c.resolve more = .ok others :=
    h.exists_resolve hboth fun i hi => hi.mono (List.subset_append_right _ _)
  have hsplit : both = units ++ others.filter (· ∉ units) := h.resolve_append hunits hothers hboth
  refine ⟨⟨units, others, hunits, hothers, hsplit⟩, nodup_of_resolve hboth, ?_,
    h.resolve_units hboth⟩
  intro i j hi hj hlater
  rw [hsplit]
  exact h.sublist_of_resolve hunits hothers hi hj hlater

/-- The second part asks for a unit that the first one needs, and for a new one. -/
theorem resolve_in_turn_library :
    Helper.library.Distinct ([.templates] ++ [.bang, .tokens]) ∧
    ∃ both, Helper.library.resolve ([.templates] ++ [.bang, .tokens]) = .ok both ∧
      [.tokens, .bang].Sublist both ∧ Helper.library.resolve both = .ok both ∧
      Helper.library.resolve ([.templates] ++ [.templates] ++ [.bang, .tokens]) = .ok both := by
  have hdistinct : Helper.library.Distinct ([.templates] ++ [.bang, .tokens]) :=
    distinct_of_injective Helper.library_name_injective _
  obtain ⟨both, hboth⟩ := exists_resolve_library ([.templates] ++ [.bang, .tokens])
  obtain ⟨hsplits, hrepeated⟩ := resolve_in_turn hdistinct
  obtain ⟨-, -, hbefore, hunits⟩ := hsplits both hboth
  have htokens : Helper.library.Reaches [.templates] .tokens :=
    (Reaches.request List.mem_cons_self).need List.mem_cons_self
  have hbang : ¬ Helper.library.Reaches [.templates] .bang := by
    rintro ⟨r, hr, hreach⟩
    obtain rfl := List.mem_singleton.1 hr
    rcases ReflTransGen.cases_tail hreach with heq | ⟨b, -, hneed⟩
    · cases heq
    · cases b with
      | templates => cases List.mem_singleton.1 hneed
      | bang | tokens | noteToFrequency | frequencyToNote | arrays | engineConfigured => cases hneed
  refine ⟨hdistinct, both, hboth, ?_, hunits, ?_⟩
  · exact hbefore _ _ htokens (.request List.mem_cons_self) hbang
  · rw [hrepeated [.templates] (List.Subset.refl _), hboth]

end Patchbay.Catalogue
