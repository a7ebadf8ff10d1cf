import Patchbay.Proofs.Patch.Fitted

/-!
The values given to inlets. Between requests an inlet holds the value last given to it, and zero
before the first.
-/
namespace Patchbay.Patch

variable {p q : Patch} {n i : Nat}

/-- The value of an inlet while nothing is connected to it. -/
def input? (p : Patch) (node inlet : Nat) : Option Float :=
  p.levels[node]?.bind (·.inputs[inlet]?)

/-- The value that a request gives to an inlet, if the inlet is there. -/
def gives? (p : Patch) (n i : Nat) : Operation → Option Float
  | .setInput node inlet value =>
    if node = n ∧ inlet = i ∧ (p.wiring.inlet? n i).isSome then some value else none
  | _ => none

/-- The values that requests give to an inlet, one after the other. -/
def given (n i : Nat) : Patch → List Operation → List Float
  | _, [] => []
  | p, o :: os => (p.gives? n i o).toList ++ given n i (p.after o) os

/-- The value that requests give to an inlet last, or zero if they give none. -/
def lastGiven (n i : Nat) (p : Patch) (os : List Operation) : Float :=
  (given n i p os).getLast?.getD 0

theorem given_append (os os' : List Operation) : given n i p (os ++ os') =
    given n i p os ++ given n i (os.foldl Patch.after p) os' := by
  induction os generalizing p with
  | nil => rfl
  | cons o os ih => simp [given, ih]

/-- Every inlet holds the last of its values, and only inlets that are there have any. -/
structure Remembers (p : Patch) (values : Nat → Nat → List Float) : Prop where
  absent : ∀ n i, p.wiring.inlet? n i = none → values n i = []
  held : ∀ n i kind, p.wiring.inlet? n i = some kind →
    p.input? n i = some ((values n i).getLast?.getD 0)

theorem remembers_new (registry : Registry) (settings : Settings) :
    (Patch.new registry settings).Remembers fun _ _ => [] where
  absent _ _ _ := rfl
  held n i kind h := by simp [Patch.new, Wiring.inlet?, Wiring.empty] at h

theorem input?_eq (p : Patch) (n i : Nat) :
    p.input? n i = (p.levels.map (·.inputs))[n]?.bind (·[i]?) := by
  rw [input?, List.getElem?_map]
  cases p.levels[n]? <;> rfl

variable {values : Nat → Nat → List Float}

theorem Remembers.of_same (h : p.Remembers values)
    (hplacements : q.wiring.placements = p.wiring.placements)
    (hinputs : q.levels.map (·.inputs) = p.levels.map (·.inputs)) : q.Remembers values := by
  have hinlet : q.wiring.inlet? = p.wiring.inlet? := by
    funext n i
    rw [Wiring.inlet?, hplacements, Wiring.inlet?]
  constructor
  · intro n i hn
    exact h.absent n i (hinlet ▸ hn)
  · intro n i kind hn
    rw [input?_eq, hinputs, ← input?_eq]
    exact h.held n i kind (hinlet ▸ hn)

theorem inlet?_place (w : Wiring) (a : Placement) (n i : Nat) :
    (w.place a).inlet? n i = if n = w.size then a.jacks.inlet? i else w.inlet? n i := by
  rw [Wiring.inlet?, Wiring.getElem?_place]
  split <;> rfl

theorem Remembers.add {nodeType : String} {args : List Atom} {m : Nat} (h : p.Remembers values)
    (hfitted : p.Fitted) (hadd : p.add nodeType args = .ok (q, m)) : q.Remembers values := by
  obtain ⟨made, -, rfl⟩ := add_eq_ok hadd
  have hlength : p.levels.length = p.wiring.size := by
    simpa [Wiring.size] using congrArg List.length hfitted.inputs
  have hnew : ∀ i, values p.wiring.size i = [] := fun i =>
    h.absent _ i (by simp [Wiring.inlet?, Wiring.size])
  constructor
  · intro n i hn
    rw [inlet?_place] at hn
    split at hn
    · next e => exact e ▸ hnew i
    · exact h.absent n i hn
  · intro n i kind hn
    rw [inlet?_place] at hn
    rw [input?, getElem?_snoc, hlength]
    split at hn
    · next e =>
      subst e
      have hi : i < made.jacks.inlets.length := (List.getElem?_eq_some_iff.1 hn).1
      simp [hnew, hi]
    · next e =>
      rw [if_neg e]
      exact h.held n i kind hn

theorem input?_setInput (p : Patch) (node inlet : Nat) (value : Float) (n i : Nat) :
    (p.setInput node inlet value).input? n i =
      if node = n ∧ inlet = i then (p.input? n i).map fun _ => value else p.input? n i := by
  simp only [input?, Patch.setInput, List.getElem?_modify]
  cases p.levels[n]? with
  | none => simp
  | some l =>
    by_cases hn : node = n <;> by_cases hi : inlet = i <;> simp [hn, hi, List.getElem?_set']
    rfl

theorem Remembers.setInput (h : p.Remembers values) (node inlet : Nat) (value : Float) :
    (p.setInput node inlet value).Remembers
      fun n i => values n i ++ (p.gives? n i (.setInput node inlet value)).toList where
  absent n i hn := by
    have hn : p.wiring.inlet? n i = none := hn
    simp [gives?, hn, h.absent n i hn]
  held n i kind hn := by
    have hn : p.wiring.inlet? n i = some kind := hn
    rw [input?_setInput, h.held n i kind hn]
    by_cases hgiven : node = n ∧ inlet = i <;> simp [gives?, hn, hgiven]

theorem inputs_compute (h : p.compute n = .ok q) :
    q.levels.map (·.inputs) = p.levels.map (·.inputs) := by
  rcases compute_eq_ok h with rfl | ⟨l, outs, hl, -, rfl⟩
  · rfl
  · simp only [List.map_set]
    exact set_eq_self (by simp [hl])

theorem inputs_foldlM_compute {order : List Nat} (h : order.foldlM compute p = .ok q) :
    q.levels.map (·.inputs) = p.levels.map (·.inputs) :=
  foldlM_compute_induction (P := fun r => r.levels.map (·.inputs) = p.levels.map (·.inputs))
    (fun hr hs => (inputs_compute hs).trans hr) rfl h

theorem Remembers.after (h : p.Remembers values) (hfitted : p.Fitted) (o : Operation) :
    (p.after o).Remembers fun n i => values n i ++ (p.gives? n i o).toList := by
  cases o with
  | setInput node inlet value => exact h.setInput node inlet value
  | add nodeType args =>
    simp only [gives?, Option.toList_none, List.append_nil, Patch.after]
    split
    · next hadd => exact h.add hfitted hadd
    · exact h
  | connect source outlet target inlet =>
    simp only [gives?, Option.toList_none, List.append_nil, Patch.after]
    split
    · next hconnect =>
      obtain ⟨w, hplacements, rfl⟩ := connect_eq_ok hconnect
      exact h.of_same hplacements rfl
    · exact h
  | tick =>
    simp only [gives?, Option.toList_none, List.append_nil]
    rcases after_tick p with hsame | ⟨order, hfold⟩
    · exact hsame.symm ▸ h
    · exact h.of_same (by rw [(traffic_foldlM_compute hfold).2]) (inputs_foldlM_compute hfold)
  | send | setArray | record | drainLog =>
    simp only [gives?, Option.toList_none, List.append_nil]
    exact h.of_same rfl rfl

theorem remembers_foldl (registry : Registry) (settings : Settings) (os : List Operation) :
    (os.foldl Patch.after (Patch.new registry settings)).Remembers
      fun n i => given n i (Patch.new registry settings) os := by
  induction os using List.reverseRecOn with
  | nil => exact remembers_new registry settings
  | append_singleton os o ih =>
    have hfitted := ((Reachable.new registry settings).foldl_after os).fitted
    simp only [given_append, List.foldl_append]
    simpa [given] using ih.after hfitted o

/-- Every inlet holds the value last given to it. -/
theorem input?_eq_lastGiven {registry : Registry} {settings : Settings} {os : List Operation}
    {kind : JackKind} (hp : os.foldl Patch.after (Patch.new registry settings) = p)
    (hinlet : p.wiring.inlet? n i = some kind) :
    p.input? n i = some (lastGiven n i (Patch.new registry settings) os) := by
  subst hp
  exact (remembers_foldl registry settings os).held n i kind hinlet

end Patchbay.Patch
