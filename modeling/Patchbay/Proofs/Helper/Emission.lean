import Patchbay.Helper.Library
import Patchbay.Proofs.Helper.Recursion

/-!
Resolution where names are distinct. Then every unit stands for itself, and a list of requests is
resolved by recursion along the needs, so that more requests only add units at the end. The builtin
units are of this kind, and none of their requests is refused.
-/
namespace Patchbay.Catalogue

open Relation

variable {ι : Type} {c : Catalogue ι} {requests more s kept kept' units : List ι} {i j : ι}

/-- The requests lead to the unit. -/
def Reaches (c : Catalogue ι) (requests : List ι) (i : ι) : Prop :=
  ∃ r ∈ requests, ReflTransGen (fun i j => j ∈ c.needs i) r i

/-- No two units that the requests lead to have one name. -/
def Distinct (c : Catalogue ι) (requests : List ι) : Prop :=
  ∀ i j, c.Reaches requests i → c.Reaches requests j → c.name i = c.name j → i = j

theorem Reaches.request (h : i ∈ requests) : c.Reaches requests i := ⟨i, h, .refl⟩

theorem Reaches.need (h : c.Reaches requests i) (hj : j ∈ c.needs i) : c.Reaches requests j := by
  obtain ⟨r, hr, hreach⟩ := h
  exact ⟨r, hr, hreach.tail hj⟩

theorem Reaches.mono (h : c.Reaches requests i) (hsub : requests ⊆ more) : c.Reaches more i := by
  obtain ⟨r, hr, hreach⟩ := h
  exact ⟨r, hsub hr, hreach⟩

theorem Distinct.mono (h : c.Distinct more) (hsub : requests ⊆ more) : c.Distinct requests :=
  fun i j hi hj => h i j (hi.mono hsub) (hj.mono hsub)

theorem distinct_of_injective (h : Function.Injective c.name) (requests : List ι) :
    c.Distinct requests := fun _ _ _ _ hname => h hname

/-- What is kept on the way is what the list leads to. -/
theorem Keeps.reaches (h : c.Keeps kept s kept') (hi : i ∈ kept') : i ∈ kept ∨ c.Reaches s i := by
  induction h with
  | done => exact .inl hi
  | known _ _ _ ih => exact (ih hi).imp_right (·.mono (List.subset_cons_self _ _))
  | @new kept below kept' s k _ _ _ ihneeds ihrest =>
    rcases ihrest hi with hbelow | hreach
    · rcases ihneeds hbelow with hadd | ⟨r, hr, hreach⟩
      · rcases List.mem_append.1 hadd with hold | hk
        · exact .inl hold
        · exact .inr ⟨k, List.mem_cons_self, List.mem_singleton.1 hk ▸ .refl⟩
      · exact .inr ⟨k, List.mem_cons_self, hreach.head hr⟩
    · exact .inr (hreach.mono (List.subset_cons_self _ _))

theorem reaches_of_mem_units (hi : i ∈ (c.roster requests).units) : c.Reaches requests i :=
  ((c.keeps_roster requests).reaches hi).resolve_left List.not_mem_nil

/-- A unit that is led to is kept under its name. -/
theorem Distinct.kept?_eq (h : c.Distinct requests) (hi : c.Reaches requests i) :
    c.kept? (c.roster requests) (c.name i) = some i := by
  have same {i j : ι} (hi : c.Reaches requests i)
      (hj : c.kept? (c.roster requests) (c.name i) = some j) :
      c.kept? (c.roster requests) (c.name i) = some i := by
    obtain ⟨hmem, hname⟩ := mem_of_kept? hj
    rw [hj, h j i (reaches_of_mem_units hmem) hi hname]
  obtain ⟨r, hr, hreach⟩ := hi
  induction hreach with
  | refl =>
    obtain ⟨j, hj, -⟩ := (c.meets_roster requests).exists_kept hr
    exact same (.request hr) hj
  | tail hreach hneed ih =>
    obtain ⟨j, hj⟩ := exists_kept_roster (mem_of_kept? ih).1 hneed
    exact same ⟨r, hr, hreach.tail hneed⟩ hj

theorem Distinct.keptFor_eq (h : c.Distinct requests) (hs : ∀ i ∈ s, c.Reaches requests i) :
    c.keptFor (c.roster requests) s = s := by
  induction s with
  | nil => rfl
  | cons i s ih =>
    obtain ⟨hi, hs⟩ := List.forall_mem_cons.1 hs
    rw [keptFor_cons (h.kept?_eq hi), ih hs]

variable [DecidableEq ι]

/-- Requests are resolved by recursion: for each unit first those that it needs, in order. -/
theorem Distinct.emits_of_resolve (h : c.Distinct requests)
    (hunits : c.resolve requests = .ok units) : Emits c.needs [] requests units := by
  have hemits := Catalogue.emits_of_resolve hunits
  rw [← keptFor_eq_standIns, h.keptFor_eq fun i hi => .request hi] at hemits
  apply hemits.congr
  intro i hi
  have hreach := reaches_of_mem_units ((mem_units_iff_of_resolve hunits).1 hi)
  exact h.keptFor_eq fun j hj => hreach.need hj

/-- More requests add the units that they need besides. -/
theorem Distinct.resolve_append {units' both : List ι} (h : c.Distinct (requests ++ more))
    (hunits : c.resolve requests = .ok units) (hunits' : c.resolve more = .ok units')
    (hboth : c.resolve (requests ++ more) = .ok both) :
    both = units ++ units'.filter (· ∉ units) :=
  (h.emits_of_resolve hboth).functional
    (((h.mono (List.subset_append_left _ _)).emits_of_resolve hunits).append_filter
      ((h.mono (List.subset_append_right _ _)).emits_of_resolve hunits'))

end Patchbay.Catalogue

namespace Patchbay

theorem Helper.library_name_injective : Function.Injective Helper.library.name := by
  intro b b' h
  cases b <;> cases b' <;> first | rfl | exact absurd h (by decide)

/-- The builtin units never need each other in a circle. -/
theorem exists_resolve_library (requests : List Helper.Builtin) :
    ∃ units, Helper.library.resolve requests = .ok units := by
  have hneeds (b d b' : Helper.Builtin) (hd : d ∈ b.needs) (hname : d.name = b'.name) :
      b = .templates ∧ b' = .tokens := by
    cases b with
    | templates =>
      obtain rfl : d = .tokens := List.mem_singleton.1 hd
      cases b' <;> first | exact ⟨rfl, rfl⟩ | exact absurd hname (by decide)
    | bang | tokens | noteToFrequency | frequencyToNote | arrays | engineConfigured => cases hd
  have hedge (b b' : Helper.Builtin) (h : (Helper.library.roster requests).graph.Edge b b') :
      b = .templates ∧ b' = .tokens := by
    rw [Catalogue.edge_roster] at h
    obtain ⟨-, -, d, hd, hname⟩ := h
    exact hneeds b d b' hd hname
  have hacyclic : (Helper.library.roster requests).graph.Acyclic := by
    intro b hb
    obtain ⟨b', hfirst, -⟩ := Relation.TransGen.head'_iff.1 hb
    obtain ⟨b'', -, hlast⟩ := Relation.TransGen.tail'_iff.1 hb
    cases (hedge _ _ hfirst).1.symm.trans (hedge _ _ hlast).2
  exact ⟨_, Catalogue.resolve_eq_ok_iff.2 ⟨hacyclic, rfl⟩⟩

/-- The builtin units for a list of requests, by recursion along their needs. -/
theorem Helper.emits_of_resolve {requests units : List Helper.Builtin}
    (h : Helper.library.resolve requests = .ok units) :
    Emits Helper.Builtin.needs [] requests units :=
  (Catalogue.distinct_of_injective Helper.library_name_injective requests).emits_of_resolve h

end Patchbay
