import Patchbay.Proofs.Helper.Requests

/-!
Registration as recursion. A unit is kept before its needs are met, so the names that are not kept
yet bound how deep the recursion goes, circles or not. What comes of it: one unit for each name, in
the order in which the names are met for the first time, and for each kept unit one edge for each of
its needs.
-/
namespace Patchbay.Catalogue

variable {ι : Type} {c : Catalogue ι} {r r' : Roster ι} {parent : Option ι}
  {s t before met met' requests : List ι} {i j x : ι} {depth : ℕ}

/-- Registers a unit by recursion on its needs and gives the unit that is kept for it; nothing if
the recursion goes deeper than allowed. -/
def registerWithin (c : Catalogue ι) : ℕ → Roster ι → ι → Option (Roster ι × ι)
  | 0, _, _ => none
  | depth + 1, r, i =>
    match c.kept? r (c.name i) with
    | some j => some (r, j)
    | none => do
      let below ← (c.needs i).foldlM (fun r need => do
        let (met, j) ← c.registerWithin depth r need
        return met.link i j) (r.add i)
      return (below, i)

/-- Registers the requests one after the other. -/
def rosterWithin (c : Catalogue ι) (depth : ℕ) (requests : List ι) : Option (Roster ι) :=
  requests.foldlM (fun r i => (c.registerWithin depth r i).map (·.1)) .empty

/-- Registers a unit as a need of the parent or as a request. -/
def meetWithin (c : Catalogue ι) (depth : ℕ) (parent : Option ι) (r : Roster ι) (i : ι) :
    Option (Roster ι) :=
  (c.registerWithin depth r i).map fun (met, j) => met.linkFrom parent j

theorem registerWithin_known (h : c.kept? r (c.name i) = some j) :
    c.registerWithin (depth + 1) r i = some (r, j) := by
  rw [registerWithin, h]

theorem registerWithin_new (h : c.kept? r (c.name i) = none) :
    c.registerWithin (depth + 1) r i =
      ((c.needs i).foldlM (c.meetWithin depth (some i)) (r.add i)).map (·, i) := by
  have hstep : (fun r need => (do
      let (met, j) ← c.registerWithin depth r need
      return met.link i j : Option (Roster ι))) = c.meetWithin depth (some i) := by
    funext r need
    rw [meetWithin]
    cases c.registerWithin depth r need <;> rfl
  rw [registerWithin, h]
  simp only [hstep]
  cases (c.needs i).foldlM (c.meetWithin depth (some i)) (r.add i) <;> rfl

theorem meetWithin_none : c.meetWithin depth none =
    fun r i => (c.registerWithin depth r i).map (·.1) := rfl

/-- The depth never runs out, as each level keeps a name that was not kept before. -/
theorem Meets.foldlM_meetWithin (h : c.Meets r parent s r')
    (hdepth : (c.unmet r).length < depth) : s.foldlM (c.meetWithin depth parent) r = some r' := by
  induction h generalizing depth with
  | done => rfl
  | known hj _ ih =>
    obtain ⟨depth, rfl⟩ := Nat.exists_eq_succ_of_ne_zero (Nat.ne_zero_of_lt hdepth)
    rw [List.foldlM_cons, meetWithin, registerWithin_known hj]
    exact ih (by simpa using hdepth)
  | @new r below r' parent i s hi hneeds _ ihneeds ihrest =>
    obtain ⟨depth, rfl⟩ := Nat.exists_eq_succ_of_ne_zero (Nat.ne_zero_of_lt hdepth)
    have hfewer := unmet_add_lt hi
    have hbelow : (c.unmet below).length ≤ (c.unmet (r.add i)).length :=
      length_unmet_le hneeds.grows
    rw [List.foldlM_cons, meetWithin, registerWithin_new hi, ihneeds (by omega)]
    refine ihrest ?_
    rw [unmet_linkFrom]
    omega

theorem rosterWithin_eq (c : Catalogue ι) (requests : List ι) (more : ℕ) :
    c.rosterWithin (c.names.length + 1 + more) requests = some (c.roster requests) := by
  have hunmet : (c.unmet .empty).length ≤ c.names.length := List.length_filter_le _ _
  rw [rosterWithin, ← meetWithin_none]
  exact (c.meets_roster requests).foldlM_meetWithin (by omega)

/-- The units that are the first of their names. -/
def firsts (c : Catalogue ι) : List ι → List ι
  | [] => []
  | i :: s => i :: (c.firsts s).filter (c.name · ≠ c.name i)

theorem name_mem_firsts {n : String} :
    n ∈ (c.firsts s).map c.name ↔ n ∈ s.map c.name := by
  induction s with
  | nil => rfl
  | cons i s ih =>
    by_cases hn : n = c.name i
    · simp [firsts, hn]
    · simp only [firsts, List.map_cons, List.mem_cons, hn, false_or, ← ih]
      simp only [List.mem_map, List.mem_filter, decide_eq_true_eq]
      constructor
      · rintro ⟨j, hj, hname⟩
        exact ⟨j, hj.1, hname⟩
      · rintro ⟨j, hj, hname⟩
        exact ⟨j, ⟨hj, fun hsame => hn (hname.symm.trans hsame)⟩, hname⟩

theorem firsts_append (s t : List ι) :
    c.firsts (s ++ t) = c.firsts s ++ (c.firsts t).filter (c.name · ∉ s.map c.name) := by
  induction s with
  | nil => simp [firsts]
  | cons i s ih =>
    simp only [List.cons_append, firsts, ih, List.filter_append, List.filter_filter]
    congr 3
    funext j
    simp

theorem firsts_concat_of_mem (h : c.name i ∈ s.map c.name) : c.firsts (s ++ [i]) = c.firsts s := by
  rw [firsts_append]
  simp [firsts, List.mem_map.1 h]

theorem firsts_concat_of_notMem (h : c.name i ∉ s.map c.name) :
    c.firsts (s ++ [i]) = c.firsts s ++ [i] := by
  rw [firsts_append]
  simp_all [firsts]

/-- The units met on the way through a list of units, after those that were met before: each unit of
the list, and behind a unit that is the first of its name those met on the way through its needs. -/
inductive Passes (c : Catalogue ι) : List ι → List ι → List ι → Prop
  | done (before : List ι) : Passes c before [] []
  | again {before s met : List ι} {i : ι} (hi : c.name i ∈ before.map c.name)
      (hrest : Passes c (before ++ [i]) s met) : Passes c before (i :: s) (i :: met)
  | first {before s below met : List ι} {i : ι} (hi : c.name i ∉ before.map c.name)
      (hneeds : Passes c (before ++ [i]) (c.needs i) below)
      (hrest : Passes c (before ++ i :: below) s met) :
    Passes c before (i :: s) (i :: (below ++ met))

theorem Passes.functional (h : c.Passes before s met) (h' : c.Passes before s met') :
    met = met' := by
  induction h generalizing met' with
  | done => cases h'; rfl
  | again hi _ ih =>
    cases h' with
    | again _ hrest' => rw [ih hrest']
    | first hi' => exact absurd hi hi'
  | first hi _ _ ihneeds ihrest =>
    cases h' with
    | again hi' => exact absurd hi' hi
    | first _ hneeds' hrest' =>
      obtain rfl := ihneeds hneeds'
      rw [ihrest hrest']

theorem kept?_eq_none_iff_of_firsts (h : r.units = c.firsts before) :
    c.kept? r (c.name i) = none ↔ c.name i ∉ before.map c.name := by
  rw [kept?_eq_none_iff, ← name_mem_firsts, h]
  simp

/-- The units that are kept are the first of their names among those that are met. -/
theorem Meets.exists_passes (h : c.Meets r parent s r') (hr : r.units = c.firsts before) :
    ∃ met, c.Passes before s met ∧ r'.units = c.firsts (before ++ met) := by
  induction h generalizing before with
  | done => exact ⟨[], .done _, by rw [hr, List.append_nil]⟩
  | @known r r' parent i j s hj _ ih =>
    have hi : c.name i ∈ before.map c.name := by
      by_contra hnew
      rw [(kept?_eq_none_iff_of_firsts hr).2 hnew] at hj
      cases hj
    obtain ⟨met, hpasses, hunits⟩ := ih (show _ = c.firsts (before ++ [i]) by
      rw [Roster.units_linkFrom, hr, firsts_concat_of_mem hi])
    exact ⟨i :: met, .again hi hpasses, by rw [hunits, List.append_assoc, List.singleton_append]⟩
  | @new r below r' parent i s hi _ _ ihneeds ihrest =>
    have hnew := (kept?_eq_none_iff_of_firsts hr).1 hi
    obtain ⟨under, hneeds, hbelow⟩ := ihneeds (show _ = c.firsts (before ++ [i]) by
      rw [Roster.units_add, hr, firsts_concat_of_notMem hnew])
    obtain ⟨met, hrest, hunits⟩ := ihrest (show _ = c.firsts (before ++ i :: under) by
      rw [Roster.units_linkFrom, hbelow, List.append_assoc, List.singleton_append])
    refine ⟨i :: (under ++ met), .first hnew hneeds hrest, ?_⟩
    rw [hunits, List.append_assoc, List.cons_append]

theorem exists_passes_roster (c : Catalogue ι) (requests : List ι) :
    ∃ met, c.Passes [] requests met ∧ (c.roster requests).units = c.firsts met :=
  (c.meets_roster requests).exists_passes rfl

/-- A unit whose name is known adds nothing. -/
theorem roster_concat_of_known (h : c.name i ∈ (c.roster requests).units.map c.name) :
    c.roster (requests ++ [i]) = c.roster requests := by
  obtain ⟨r, hmeets, hregister⟩ := c.exists_meets .empty none requests
  have hr : c.roster requests = r := by
    rw [roster, ← List.append_nil (requests.map _), hregister, register]
  have hknown : ∀ k ∈ [i], ∃ j, c.kept? r (c.name k) = some j := by
    intro k hk
    obtain rfl := List.mem_singleton.1 hk
    rw [← Option.ne_none_iff_exists', ne_eq, kept?_eq_none_iff, ← hr]
    simpa using h
  have hsame := register_of_known [] hknown
  simp only [List.append_nil] at hsame
  rw [hr, roster, List.map_append, hregister, hsame, register]

variable [DecidableEq ι]

theorem map_name_successors_roster (hx : x ∈ (c.roster requests).units) :
    ((c.roster requests).graph.successors x).map c.name = (c.needs x).map c.name := by
  rw [successors_roster hx, keptFor_eq_standIns]
  exact (map_name_standIns_of_keeps (c.keeps_roster requests)).2 x hx

/-- Registration ends: the recursion needs no more levels than there are names, and one. What it
builds is told by the units that are met, which are well determined. The first unit of each name is
kept, in the order of meeting, and nothing else is. The edges of a kept unit lead to kept units, one
for each need and under its name, in the order of the needs; other units have no edges. To meet a
unit whose name is known changes nothing. -/
theorem roster_by_recursion (c : Catalogue ι) (requests : List ι) :
    (∀ more, c.rosterWithin (c.names.length + 1 + more) requests = some (c.roster requests)) ∧
    ∃ met, c.Passes [] requests met ∧ (∀ met', c.Passes [] requests met' → met' = met) ∧
      (c.roster requests).units = c.firsts met ∧
      ((c.roster requests).units.map c.name).Nodup ∧
      (∀ n, n ∈ (c.roster requests).units.map c.name ↔ n ∈ met.map c.name) ∧
      (∀ i ∈ (c.roster requests).units,
        (c.roster requests).graph.successors i ⊆ (c.roster requests).units ∧
        ((c.roster requests).graph.successors i).map c.name = (c.needs i).map c.name) ∧
      (∀ e ∈ (c.roster requests).edges, e.1 ∈ (c.roster requests).units) ∧
      ∀ i, c.name i ∈ met.map c.name → c.roster (requests ++ [i]) = c.roster requests := by
  obtain ⟨met, hpasses, hunits⟩ := c.exists_passes_roster requests
  have hnames (n : String) :
      n ∈ (c.roster requests).units.map c.name ↔ n ∈ met.map c.name := by
    rw [hunits, name_mem_firsts]
  refine ⟨rosterWithin_eq c requests, met, hpasses, fun met' h => h.functional hpasses, hunits,
    nodup_names_roster, hnames, fun i hi => ⟨?_, map_name_successors_roster hi⟩, ?_, ?_⟩
  · rw [successors_roster hi]
    exact keptFor_subset_units
  · rintro ⟨i, j⟩ hedge
    exact (closed_roster c requests i j hedge).1
  · intro i hi
    exact roster_concat_of_known ((hnames _).2 hi)

example : refrain.rosterWithin 5 [0] =
    some ⟨[0, 1, 2, 3], [(2, 3), (2, 1), (1, 2), (0, 1)]⟩ := rfl

end Patchbay.Catalogue
