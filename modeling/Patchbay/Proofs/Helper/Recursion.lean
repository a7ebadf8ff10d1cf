import Patchbay.Proofs.Digraph.Emission
import Patchbay.Proofs.Helper.Resolution

/-!
Resolution as recursion. Where the kept units do not need each other in a circle, the walk with a
stack and with marks lists them as recursion along the needs does: a unit that is not listed yet
comes behind its needs, which are taken in order.
-/
namespace Patchbay.Catalogue

open Relation

variable {ι : Type} {c : Catalogue ι} {requests kept units : List ι} {i : ι}

/-- The kept units that stand for the units of a list. -/
def standIns (c : Catalogue ι) (kept s : List ι) : List ι :=
  s.filterMap fun i => kept.find? (c.name · = c.name i)

theorem keptFor_eq_standIns (r : Roster ι) (s : List ι) :
    c.keptFor r s = c.standIns r.units s := rfl

theorem map_name_standIns {s : List ι} (h : ∀ i ∈ s, ∃ j ∈ kept, c.name j = c.name i) :
    (c.standIns kept s).map c.name = s.map c.name := by
  induction s with
  | nil => rfl
  | cons i s ih =>
    obtain ⟨⟨j, hj, hname⟩, hs⟩ := List.forall_mem_cons.1 h
    cases hfound : kept.find? (c.name · = c.name i) with
    | none => simpa [hname] using List.find?_eq_none.1 hfound j hj
    | some k =>
      have hsame : c.name k = c.name i := by simpa using List.find?_some hfound
      have hcons : c.standIns kept (i :: s) = k :: c.standIns kept s :=
        List.filterMap_cons_some hfound
      rw [hcons, List.map_cons, List.map_cons, hsame, ih hs]

/-- No request and no need of a kept unit goes without a unit that stands for it. -/
theorem map_name_standIns_of_keeps (hkept : c.Keeps [] requests kept) :
    (c.standIns kept requests).map c.name = requests.map c.name ∧
      ∀ i ∈ kept, (c.standIns kept (c.needs i)).map c.name = (c.needs i).map c.name := by
  obtain rfl := hkept.functional (c.keeps_roster requests)
  constructor
  · apply map_name_standIns
    intro i hi
    obtain ⟨j, hj, -⟩ := (c.meets_roster requests).exists_kept hi
    exact ⟨j, mem_of_kept? hj⟩
  · intro i hi
    apply map_name_standIns
    intro d hd
    obtain ⟨j, hj⟩ := exists_kept_roster hi hd
    exact ⟨j, mem_of_kept? hj⟩

variable [DecidableEq ι]

theorem emits_listed (h : (c.roster requests).graph.Acyclic) :
    Emits (fun i => c.standIns (c.roster requests).units (c.needs i)) []
      (c.standIns (c.roster requests).units requests) (c.listed requests) := by
  apply (h.emits_postorder (closed_roster c requests) keptFor_subset_units).congr
  intro i hi
  apply successors_roster
  exact Digraph.postorder_subset (closed_roster c requests) keptFor_subset_units hi

theorem emits_of_resolve (h : c.resolve requests = .ok units) :
    Emits (fun i => c.standIns (c.roster requests).units (c.needs i)) []
      (c.standIns (c.roster requests).units requests) units := by
  obtain ⟨hacyclic, rfl⟩ := resolve_eq_ok_iff.1 h
  exact emits_listed hacyclic

theorem mem_units_iff_of_resolve (h : c.resolve requests = .ok units) :
    i ∈ units ↔ i ∈ (c.roster requests).units := by
  obtain ⟨hacyclic, rfl⟩ := resolve_eq_ok_iff.1 h
  exact (perm_listed hacyclic).mem_iff

theorem nodup_of_resolve (h : c.resolve requests = .ok units) : units.Nodup := by
  obtain ⟨hacyclic, rfl⟩ := resolve_eq_ok_iff.1 h
  exact (perm_listed hacyclic).nodup_iff.2 nodup_names_roster.of_map

/-- Without a circle resolution gives what walks from one request after the other leave behind,
with marks that they share. It is what recursion gives as well: one list, to which each request that
is not in it yet is added behind its needs, in order and each treated in the same way. For every
request and every need there is a kept unit of its name. -/
theorem resolve_by_recursion (hkept : c.Keeps [] requests kept)
    (hcircle : ∀ i, ¬ TransGen (c.Requires kept) i i) :
    ((c.standIns kept requests).map c.name = requests.map c.name ∧
      ∀ i ∈ kept, (c.standIns kept (c.needs i)).map c.name = (c.needs i).map c.name) ∧
    ∃ units, c.resolve requests = .ok units ∧
      units = ((c.standIns kept requests).foldl
        (fun marks root => (c.roster requests).graph.explore marks [root]) .empty).finished ∧
      ∀ emitted, Emits (fun i => c.standIns kept (c.needs i)) []
        (c.standIns kept requests) emitted ↔ emitted = units := by
  refine ⟨map_name_standIns_of_keeps hkept, c.listed requests, ?_⟩
  obtain rfl := hkept.functional (c.keeps_roster requests)
  rw [← edge_roster] at hcircle
  have hemits := emits_listed hcircle
  refine ⟨resolve_eq_ok_iff.2 ⟨hcircle, rfl⟩, ?_, ?_⟩
  · rw [← Digraph.explore_eq_foldl]
    rfl
  · intro emitted
    constructor
    · intro h
      exact h.functional hemits
    · rintro rfl
      exact hemits

/-- A unit that is needed twice by one unit and once by another, under two references. -/
theorem resolve_by_recursion_song : song.Keeps [] [0, 4, 1] [0, 1, 3, 2] ∧
    (∀ i, ¬ TransGen (song.Requires [0, 1, 3, 2]) i i) ∧
    song.resolve [0, 4, 1] = .ok [3, 1, 2, 0] := by
  have hstep : ∀ i j, song.Requires [0, 1, 3, 2] i j → i < j := by
    unfold Requires
    decide
  have hcircle : ∀ i, ¬ TransGen (song.Requires [0, 1, 3, 2]) i i := by
    intro i hi
    have hlt : TransGen (· < ·) i i := TransGen.mono hstep i i hi
    rw [transGen_eq_self] at hlt
    exact Nat.lt_irrefl i hlt
  obtain ⟨-, units, hunits, -, hemits⟩ := resolve_by_recursion keeps_song hcircle
  have hlist : Emits (fun i => song.standIns [0, 1, 3, 2] (song.needs i)) []
      (song.standIns [0, 1, 3, 2] [0, 4, 1]) [3, 1, 2, 0] := by
    have hverse : Emits (fun i => song.standIns [0, 1, 3, 2] (song.needs i)) [] [1] [3, 1] :=
      .new (by decide) (.new (v := 3) (s := []) (by decide) (.done []) (.done [3])) (.done _)
    have hchorus : Emits (fun i => song.standIns [0, 1, 3, 2] (song.needs i))
        [3, 1] [2] [3, 1, 2] :=
      .new (by decide) (.known (v := 3) (s := []) (by decide) (.done [3, 1])) (.done _)
    have hneeds := hverse.append (hchorus.append (.of_subset (s := [1]) (by decide)))
    exact .new (v := 0) (s := [3, 1]) (by decide) hneeds (.of_subset (by decide))
  rw [(hemits _).1 hlist]
  exact ⟨keeps_song, hcircle, hunits⟩

end Patchbay.Catalogue
