import Patchbay.Proofs.Digraph.Order
import Patchbay.Proofs.Helper.Roster

/-!
Resolution. Where the kept units do not need each other in a circle, all of them are listed, each
behind those that it needs. Where they do, a unit on such a circle is named instead.
-/
namespace Patchbay.Catalogue

open Relation

variable {ι : Type} {c : Catalogue ι} {requests kept : List ι} {i j : ι}

/-- Both units are kept, and the second stands for one that the first needs. -/
def Requires (c : Catalogue ι) (kept : List ι) (i j : ι) : Prop :=
  i ∈ kept ∧ j ∈ kept ∧ ∃ d ∈ c.needs i, c.name d = c.name j

theorem existsUnique_keeps (c : Catalogue ι) (requests : List ι) :
    ∃! kept, c.Keeps [] requests kept :=
  ⟨_, c.keeps_roster requests, fun _ h => h.functional (c.keeps_roster requests)⟩

theorem nodup_names_roster : ((c.roster requests).units.map c.name).Nodup :=
  (c.keeps_roster requests).nodup_names List.nodup_nil

variable [DecidableEq ι]

theorem edge_roster : (c.roster requests).graph.Edge = c.Requires (c.roster requests).units := by
  funext i j
  apply propext
  constructor
  · intro h
    obtain ⟨hi, hj⟩ := closed_roster c requests i j h
    have hsucc : j ∈ (c.roster requests).graph.successors i := Digraph.mem_successors.2 h
    rw [successors_roster hi] at hsucc
    obtain ⟨d, hd, hkept⟩ := List.mem_filterMap.1 hsucc
    exact ⟨hi, hj, d, hd, (mem_of_kept? hkept).2.symm⟩
  · rintro ⟨hi, hj, d, hd, hname⟩
    obtain ⟨k, hk⟩ := exists_kept_roster hi hd
    have hkj : k = j := List.inj_on_of_nodup_map nodup_names_roster (mem_of_kept? hk).1 hj
      ((mem_of_kept? hk).2.trans hname)
    apply Digraph.mem_successors.1
    rw [successors_roster hi]
    exact List.mem_filterMap.2 ⟨d, hd, hkj ▸ hk⟩

/-- The order in which units are listed. -/
def listed (c : Catalogue ι) (requests : List ι) : List ι :=
  (c.roster requests).graph.postorder (c.keptFor (c.roster requests) requests)

theorem resolve_of_sort_ok {order : List ι} (h : (c.roster requests).graph.sort = .ok order) :
    c.resolve requests = .ok (c.listed requests) := by
  simp only [resolve, h]
  rfl

theorem resolve_of_sort_error (h : (c.roster requests).graph.sort = .error i) :
    c.resolve requests = .error (.dependencyCycle (c.name i)) := by
  simp only [resolve, h]

theorem resolve_eq_ok_iff {units : List ι} : c.resolve requests = .ok units ↔
    (c.roster requests).graph.Acyclic ∧ units = c.listed requests := by
  have hsorts := Digraph.exists_sort_iff_acyclic (closed_roster c requests)
  constructor
  · intro h
    cases hsort : (c.roster requests).graph.sort with
    | error i =>
      rw [resolve_of_sort_error hsort] at h
      cases h
    | ok order =>
      rw [resolve_of_sort_ok hsort] at h
      exact ⟨hsorts.1 ⟨order, hsort⟩, (Except.ok.inj h).symm⟩
  · rintro ⟨hacyclic, rfl⟩
    obtain ⟨order, hsort⟩ := hsorts.2 hacyclic
    exact resolve_of_sort_ok hsort

theorem perm_listed (h : (c.roster requests).graph.Acyclic) :
    (c.listed requests).Perm (c.roster requests).units := by
  have hclosed := closed_roster c requests
  have hroots : c.keptFor (c.roster requests) requests ⊆ (c.roster requests).graph.vertices :=
    keptFor_subset_units
  refine (List.perm_ext_iff_of_nodup (Digraph.nodup_postorder hclosed hroots)
    nodup_names_roster.of_map).2 fun i => ⟨fun hi => Digraph.postorder_subset hclosed hroots hi, ?_⟩
  intro hi
  obtain ⟨j, hj, hreach⟩ := reachable_roster hi
  exact h.mem_postorder hclosed hroots hj hreach

/-- The units that are kept are well determined. If they do not need each other in a circle, then
resolution succeeds with all of them, each once and under a name of its own, and behind the kept
units for all that it needs. -/
theorem resolve_of_no_circle (c : Catalogue ι) (requests : List ι) :
    (∃! kept, c.Keeps [] requests kept) ∧ ∀ kept, c.Keeps [] requests kept →
      (∀ i, ¬ TransGen (c.Requires kept) i i) →
      ∃ units, c.resolve requests = .ok units ∧ units.Perm kept ∧ (units.map c.name).Nodup ∧
        ∀ done i rest, units = done ++ i :: rest →
          ∀ d ∈ c.needs i, ∃ j ∈ done, j ∈ kept ∧ c.name j = c.name d := by
  refine ⟨existsUnique_keeps c requests, ?_⟩
  intro kept hkept hcircle
  obtain rfl := hkept.functional (c.keeps_roster requests)
  rw [← edge_roster] at hcircle
  obtain ⟨order, hsort⟩ := (Digraph.exists_sort_iff_acyclic (closed_roster c requests)).2 hcircle
  have hperm := perm_listed hcircle
  refine ⟨_, resolve_of_sort_ok hsort, hperm,
    (hperm.map c.name).nodup_iff.2 nodup_names_roster, ?_⟩
  intro done i rest hl d hd
  have hi : i ∈ (c.roster requests).units := hperm.subset (by simp [hl])
  obtain ⟨j, hj⟩ := exists_kept_roster hi hd
  obtain ⟨hmem, hname⟩ := mem_of_kept? hj
  have hedge : (c.roster requests).graph.Edge i j := by
    rw [edge_roster]
    exact ⟨hi, hmem, d, hd, hname.symm⟩
  exact ⟨j, Digraph.Acyclic.heeds_postorder hcircle (closed_roster c requests)
    keptFor_subset_units done i rest hl j hedge, hmem, hname⟩

/-- Two units of one name, of which the second needs what needs it. -/
def song : Catalogue (Fin 5) where
  unit
    | 0 => ⟨"song", [1, 2, 1], fun _ => .raw ""⟩
    | 1 => ⟨"verse", [3], fun _ => .raw ""⟩
    | 2 => ⟨"chorus", [4], fun _ => .raw ""⟩
    | 3 => ⟨"note", [], fun _ => .raw ""⟩
    | 4 => ⟨"note", [0], fun _ => .raw ""⟩
  names := ["song", "verse", "chorus", "note"]
  name_mem := by decide

theorem keeps_song : song.Keeps [] [0, 4, 1] [0, 1, 3, 2] :=
  .new (by decide)
    (.new (by decide) (.new (by decide) (.done _) (.done _))
      (.new (by decide) (.known (j := 3) (by decide) rfl (.done _))
        (.known (j := 1) (by decide) rfl (.done _))))
    (.known (j := 3) (by decide) rfl (.known (j := 1) (by decide) rfl (.done _)))

theorem resolve_of_no_circle_song : song.Keeps [] [0, 4, 1] [0, 1, 3, 2] ∧
    (∀ i, ¬ TransGen (song.Requires [0, 1, 3, 2]) i i) ∧
    ∃ units, song.resolve [0, 4, 1] = .ok units ∧ units.Perm [0, 1, 3, 2] ∧
      (units.map song.name).Nodup ∧ ∀ done i rest, units = done ++ i :: rest →
        ∀ d ∈ song.needs i, ∃ j ∈ done, j ∈ [0, 1, 3, 2] ∧ song.name j = song.name d := by
  have hstep : ∀ i j, song.Requires [0, 1, 3, 2] i j → i < j := by
    unfold Requires
    decide
  have hlt {i j : Fin 5} (h : TransGen (song.Requires [0, 1, 3, 2]) i j) : i < j := by
    induction h with
    | single h => exact hstep _ _ h
    | tail _ h ih => exact Nat.lt_trans ih (hstep _ _ h)
  have hcircle : ∀ i, ¬ TransGen (song.Requires [0, 1, 3, 2]) i i :=
    fun i hi => Nat.lt_irrefl i (hlt hi)
  exact ⟨keeps_song, hcircle, (resolve_of_no_circle song [0, 4, 1]).2 _ keeps_song hcircle⟩

/-- Resolution is refused if and only if kept units need each other in a circle. The unit that it
names then lies on such a circle itself. -/
theorem resolve_eq_error_iff (hkept : c.Keeps [] requests kept) :
    ((∃ name, c.resolve requests = .error (.dependencyCycle name)) ↔
      ∃ i, TransGen (c.Requires kept) i i) ∧
    ∀ e, c.resolve requests = .error e →
      ∃ i ∈ kept, e = .dependencyCycle (c.name i) ∧ TransGen (c.Requires kept) i i := by
  obtain rfl := hkept.functional (c.keeps_roster requests)
  rw [← edge_roster]
  have hclosed := closed_roster c requests
  have hnamed : ∀ e, c.resolve requests = .error e → ∃ i ∈ (c.roster requests).units,
      e = .dependencyCycle (c.name i) ∧ TransGen (c.roster requests).graph.Edge i i := by
    intro e he
    cases hsort : (c.roster requests).graph.sort with
    | ok order => simp [resolve_of_sort_ok hsort] at he
    | error i =>
      have hcycle := Digraph.cycle_of_sort hclosed hsort
      obtain ⟨j, hedge, -⟩ := TransGen.head'_iff.1 hcycle
      rw [resolve_of_sort_error hsort] at he
      exact ⟨i, (hclosed i j hedge).1, (Except.error.inj he).symm, hcycle⟩
  refine ⟨⟨?_, ?_⟩, hnamed⟩
  · rintro ⟨name, h⟩
    obtain ⟨i, -, -, hi⟩ := hnamed _ h
    exact ⟨i, hi⟩
  · rintro ⟨i, hi⟩
    cases hsort : (c.roster requests).graph.sort with
    | ok order =>
      exact absurd hi ((Digraph.exists_sort_iff_acyclic hclosed).1 ⟨order, hsort⟩ i)
    | error j => exact ⟨_, resolve_of_sort_error hsort⟩

/-- A circle of two units, with one that leads to it and one that it leads to. -/
def refrain : Catalogue (Fin 4) where
  unit
    | 0 => ⟨"intro", [1], fun _ => .raw ""⟩
    | 1 => ⟨"call", [2], fun _ => .raw ""⟩
    | 2 => ⟨"answer", [3, 1], fun _ => .raw ""⟩
    | 3 => ⟨"outro", [], fun _ => .raw ""⟩
  names := ["intro", "call", "answer", "outro"]
  name_mem := by decide

theorem resolve_eq_error_iff_refrain : refrain.Keeps [] [0] [0, 1, 2, 3] ∧
    ∃ i ∈ [0, 1, 2, 3], refrain.resolve [0] = .error (.dependencyCycle (refrain.name i)) ∧
      TransGen (refrain.Requires [0, 1, 2, 3]) i i := by
  have hkept : refrain.Keeps [] [0] [0, 1, 2, 3] :=
    .new (by decide)
      (.new (by decide)
        (.new (by decide)
          (.new (by decide) (.done _) (.known (j := 1) (by decide) rfl (.done _))) (.done _))
        (.done _))
      (.done _)
  have hcircle : TransGen (refrain.Requires [0, 1, 2, 3]) 1 1 :=
    .tail (.single (b := 2) (by unfold Requires; decide)) (by unfold Requires; decide)
  obtain ⟨hiff, hnamed⟩ := resolve_eq_error_iff hkept
  obtain ⟨name, hname⟩ := hiff.2 ⟨1, hcircle⟩
  obtain ⟨i, hi, he, hcycle⟩ := hnamed _ hname
  exact ⟨hkept, i, hi, he ▸ hname, hcycle⟩

end Patchbay.Catalogue
