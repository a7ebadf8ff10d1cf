import Patchbay.Proofs.Delivery.Kinds
import Patchbay.Proofs.Patch.Wired

/-!
What enters an inlet. The inputs of a node are gathered in one pass over all signal connections into
the node, with a mark on each inlet that has been fed. Each inlet is left with the sum along its own
connections, or with its own value if it has none.
-/
namespace Patchbay

namespace Wiring

/-- What connections bring to an inlet: the values at their outlets added up from the first
connection on, or the inlet's own value if there are none. -/
def total (own : Float) (v : Nat → Nat → Float) : List Connection → Float
  | [] => own
  | c :: cs => cs.foldl (fun sum c => sum + v c.source c.outlet) (v c.source c.outlet)

theorem total_append_singleton (own : Float) (v : Nat → Nat → Float) (cs : List Connection)
    (c : Connection) : total own v (cs ++ [c]) =
      if cs = [] then v c.source c.outlet else total own v cs + v c.source c.outlet := by
  cases cs <;> simp [total]

theorem total_congr {own : Float} {v v' : Nat → Nat → Float} {cs : List Connection}
    (h : ∀ c ∈ cs, v c.source c.outlet = v' c.source c.outlet) :
    total own v cs = total own v' cs := by
  induction cs using List.reverseRecOn with
  | nil => rfl
  | append_singleton cs c ih =>
    rw [total_append_singleton, total_append_singleton, h c (by simp),
      ih fun c hc => h c (List.mem_append_left _ hc)]

variable {w : Wiring} {c : Connection} {n i : Nat}

/-- The signal connections into an inlet, newest first. -/
def signalsAt (w : Wiring) (n i : Nat) : List Connection :=
  w.connections.reverse.filter fun c => c.target = n ∧ c.inlet = i ∧ c.kind = .signal

/-- What enters an inlet: the values at the outlets connected to it, added up from the newest
connection on, or the inlet's own value if there are none. -/
def entering (w : Wiring) (own : Float) (v : Nat → Nat → Float) (n i : Nat) : Float :=
  total own v (w.signalsAt n i)

theorem mem_signalsInto : c ∈ w.signalsInto n ↔
    c ∈ w.connections ∧ c.target = n ∧ c.kind = .signal := by
  simp only [signalsInto, incoming, List.mem_filter, List.mem_reverse, decide_eq_true_eq, and_assoc]

theorem mem_signalsAt : c ∈ w.signalsAt n i ↔
    c ∈ w.connections ∧ c.target = n ∧ c.inlet = i ∧ c.kind = .signal := by
  simp [signalsAt]

theorem filter_signalsInto (w : Wiring) (n i : Nat) :
    (w.signalsInto n).filter (·.inlet = i) = w.signalsAt n i := by
  rw [signalsInto, incoming, List.filter_filter, List.filter_filter, signalsAt]
  congr 1
  funext c
  simp only [Bool.decide_and]
  grind

theorem drives_of_mem_signalsAt (hc : c ∈ w.signalsAt n i) : w.Drives c.source n := by
  obtain ⟨hmem, htarget, -, hkind⟩ := mem_signalsAt.1 hc
  exact ⟨c, hmem, hkind, rfl, htarget⟩

theorem entering_congr {own : Float} {v v' : Nat → Nat → Float}
    (h : ∀ c ∈ w.signalsAt n i, v c.source c.outlet = v' c.source c.outlet) :
    w.entering own v n i = w.entering own v' n i := total_congr h

end Wiring

theorem set_mapIdx {α β : Type} {f g : Nat → α → β} {l : List α} {k : Nat} {b : β}
    (h : ∀ i a, l[i]? = some a → g i a = if i = k then b else f i a) :
    (l.mapIdx f).set k b = l.mapIdx g := by
  apply List.ext_getElem?
  intro i
  simp only [List.getElem?_set, List.getElem?_mapIdx, List.length_mapIdx]
  cases hi : l[i]? with
  | none => simp_all
  | some a => grind

namespace Gathering

open Wiring (total total_append_singleton)

variable {own : List Float} {v : Nat → Nat → Float} {cs : List Connection} {c : Connection}

/-- The gathering after the connections have been met: each inlet holds its sum so far, and has been
fed if one of them leads to it. -/
def after (own : List Float) (v : Nat → Nat → Float) (cs : List Connection) : Gathering where
  inputs := own.mapIdx fun i x => total x v (cs.filter (·.inlet = i))
  connected := own.mapIdx fun i _ => cs.any (·.inlet = i)

theorem start_eq_after (own : List Float) (v : Nat → Nat → Float) :
    start own = after own v [] := by
  have hinputs : own = own.mapIdx fun _ x => x := List.ext_getElem? (by simp)
  have hconnected : List.replicate own.length false = own.mapIdx fun _ _ => false :=
    List.ext_getElem (by simp) (by simp)
  simp only [start, after, List.filter_nil, total, List.any_nil, hconnected, ← hinputs]

theorem inputs_after {i : Nat} (h : i < own.length) :
    (after own v cs).inputs[i]? = some (total own[i] v (cs.filter (·.inlet = i))) := by
  simp [after, h]

theorem connected_after {i : Nat} (h : i < own.length) :
    (after own v cs).connected[i]? = some (cs.any (·.inlet = i)) := by
  simp [after, h]

theorem set_inputs_after (v : Nat → Nat → Float) (cs : List Connection)
    (h : c.inlet < own.length) : (after own v cs).inputs.set c.inlet
      (total own[c.inlet] v (cs.filter (·.inlet = c.inlet) ++ [c])) =
        (after own v (cs ++ [c])).inputs := by
  refine set_mapIdx fun i x hx => ?_
  by_cases hi : i = c.inlet
  · subst hi
    obtain ⟨-, rfl⟩ := List.getElem?_eq_some_iff.1 hx
    simp [List.filter_append]
  · simp [List.filter_append, hi, Ne.symm hi]

theorem set_connected_after (own : List Float) (v : Nat → Nat → Float) (cs : List Connection)
    (c : Connection) : (after own v cs).connected.set c.inlet true =
      (after own v (cs ++ [c])).connected :=
  set_mapIdx fun i x hx => by by_cases hi : i = c.inlet <;> simp [hi, eq_comm]

/-- A connection adds to the sum of its inlet, and leaves the other inlets as they are. -/
theorem feed_after (h : c.inlet < own.length) :
    (after own v cs).feed c.inlet (v c.source c.outlet) = .ok (after own v (cs ++ [c])) := by
  have hinputs := set_inputs_after v cs h
  have hconnected := set_connected_after own v cs c
  rw [total_append_singleton] at hinputs
  rw [feed, inputs_after h, connected_after h]
  -- The inlet is marked if and only if there is a sum to add to.
  cases hfed : cs.any (·.inlet = c.inlet) with
  | true =>
    have hne : cs.filter (·.inlet = c.inlet) ≠ [] := by simpa using hfed
    have hmark := (connected_after (v := v) h).trans (congrArg some hfed)
    rw [if_neg hne] at hinputs
    rw [set_eq_self hmark] at hconnected
    simp only [hinputs, hconnected]
  | false =>
    have hnil : cs.filter (·.inlet = c.inlet) = [] := by simpa using hfed
    rw [if_pos hnil] at hinputs
    simp only [hinputs, hconnected]

/-- The pass over the connections, all of which have a value and lead to an inlet. -/
theorem foldlM_feed {value : Connection → Except Fault Float}
    (h : ∀ c ∈ cs, c.inlet < own.length ∧ value c = .ok (v c.source c.outlet)) :
    cs.foldlM (fun (g : Gathering) c => do g.feed c.inlet (← value c)) (start own) =
      .ok (after own v cs) := by
  -- The connection met last is taken off, since the others decide what it finds.
  induction cs using List.reverseRecOn with
  | nil => rw [← start_eq_after]; rfl
  | append_singleton cs c ih =>
    obtain ⟨hinlet, hvalue⟩ := h c (by simp)
    rw [List.foldlM_append, ih fun c hc => h c (List.mem_append_left _ hc)]
    simp only [List.foldlM_cons, List.foldlM_nil, hvalue, bind, Except.bind, feed_after hinlet]
    rfl

end Gathering

end Patchbay
