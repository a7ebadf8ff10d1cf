import Patchbay.Proofs.Delivery.Kinds
import Patchbay.Proofs.Patch.Wired

/-!
The nodes of a patch and their placements. A node has the jacks of the kind that it was made as, and
there is a level for each of them. Signal jacks are those of signal functions alone.
-/
namespace Patchbay

open Traffic

theorem NodeKind.kind_make {kind : NodeKind} {args : List Atom} {node : Node}
    (h : kind.make args = .ok node) : node.kind = kind := by
  cases kind with
  | message =>
    simp only [make, bind, Except.bind] at h
    split at h
    · cases h
    · cases h; rfl
  | tableWrite =>
    simp only [make, bind, Except.bind] at h
    split at h
    · cases h
    · cases h; rfl
  | tableRead =>
    simp only [make, bind, Except.bind] at h
    split at h
    · cases h
    · cases h; rfl
  | sampleRate => cases h; rfl
  | func f => cases h; rfl

/-- What is made has the kind, the type and the jacks that its name stands for. -/
theorem Registry.build_eq_ok {r : Registry} {name : String} {args : List Atom} {made : NewNode}
    (h : r.build name args = .ok made) : ∃ kind, r.kind? name = some kind ∧
      made.node.kind = kind ∧ made.nodeType = name ∧ made.jacks = kind.jacks := by
  unfold build at h
  split at h
  · cases h
  · next kind hkind =>
    simp only [bind, Except.bind] at h
    split at h
    · cases h
    · next node hmake =>
      cases h
      exact ⟨kind, hkind, NodeKind.kind_make hmake, rfl, rfl⟩

theorem Registry.jacks_build {r : Registry} {name : String} {args : List Atom} {made : NewNode}
    (h : r.build name args = .ok made) : made.node.kind.jacks = made.jacks := by
  obtain ⟨kind, -, hnode, -, hjacks⟩ := build_eq_ok h
  rw [hnode, hjacks]

namespace Patch

variable {p q : Patch} {n : Nat}

/-- Every node has the jacks of its kind, and a level for each. -/
structure Fitted (p : Patch) : Prop where
  nodes : p.traffic.nodes.map (·.kind.jacks) = p.wiring.placements.map (·.jacks)
  inputs : p.levels.map (·.inputs.length) = p.wiring.placements.map (·.jacks.inlets.length)
  outputs : p.levels.map (·.outputs.length) = p.wiring.placements.map (·.jacks.outlets.length)

theorem fitted_new (registry : Registry) (settings : Settings) :
    (Patch.new registry settings).Fitted := ⟨rfl, rfl, rfl⟩

theorem Fitted.add {nodeType : String} {args : List Atom} (h : p.Fitted)
    (hadd : p.add nodeType args = .ok (q, n)) : q.Fitted := by
  obtain ⟨made, hmade, rfl⟩ := add_eq_ok hadd
  have hjacks := Registry.jacks_build hmade
  constructor
  · simp [Wiring.place, h.nodes, hjacks]
  · simp [Wiring.place, h.inputs]
  · simp [Wiring.place, h.outputs]

theorem Fitted.connect {source outlet target inlet : Nat} (h : p.Fitted)
    (hconnect : p.connect source outlet target inlet = .ok q) : q.Fitted := by
  obtain ⟨w, hplacements, rfl⟩ := connect_eq_ok hconnect
  constructor
  · exact hplacements ▸ h.nodes
  · exact hplacements ▸ h.inputs
  · exact hplacements ▸ h.outputs

theorem Fitted.send (h : p.Fitted) (hidle : p.Idle) (node inlet : Nat) (m : Message) :
    (p.send node inlet m).Fitted where
  nodes := by
    have hkinds : (p.send node inlet m).traffic.nodes.map (·.kind) =
        p.traffic.nodes.map (·.kind) :=
      induction_kinds.of_deliver (t := { p.traffic with queued := 0 }) hidle.staffed
        ⟨node, inlet, m⟩
    have hjacks := congrArg (List.map NodeKind.jacks) hkinds
    simp only [List.map_map] at hjacks
    exact hjacks.trans h.nodes
  inputs := h.inputs
  outputs := h.outputs

theorem Fitted.setInput (h : p.Fitted) (node inlet : Nat) (value : Float) :
    (p.setInput node inlet value).Fitted where
  nodes := h.nodes
  inputs := by
    refine Eq.trans (List.ext_getElem? ?_) h.inputs
    intro i
    simp only [Patch.setInput, List.getElem?_map, List.getElem?_modify]
    cases p.levels[i]? with
    | none => rfl
    | some l => by_cases hi : node = i <;> simp [hi]
  outputs := by
    refine Eq.trans (List.ext_getElem? ?_) h.outputs
    intro i
    simp only [Patch.setInput, List.getElem?_map, List.getElem?_modify]
    cases p.levels[i]? with
    | none => rfl
    | some l => by_cases hi : node = i <;> simp [hi]

/-- A sample gives a node as many outputs as it had. -/
theorem length_process {node : Node} {inputs outputs outs : List Float}
    (h : node.process inputs outputs = .ok outs) : outs.length = outputs.length := by
  unfold Node.process at h
  split at h
  · split at h
    · cases h; rfl
    · cases h
  · cases h; rfl

theorem compute_eq_ok (h : p.compute n = .ok q) : q = p ∨ ∃ l outs, p.levels[n]? = some l ∧
    outs.length = l.outputs.length ∧
      q = { p with levels := p.levels.set n { l with outputs := outs } } := by
  unfold compute at h
  split at h
  · next l node hl _ =>
    simp only [bind, Except.bind] at h
    split at h
    · cases h
    · split at h
      · exact .inl (Except.ok.inj h).symm
      · split at h
        · cases h
        · next outs hprocess =>
          exact .inr ⟨l, outs, hl, length_process hprocess, (Except.ok.inj h).symm⟩
  · cases h

theorem Fitted.compute (h : p.Fitted) (hcompute : p.compute n = .ok q) : q.Fitted := by
  rcases compute_eq_ok hcompute with rfl | ⟨l, outs, hl, hlength, rfl⟩
  · exact h
  · refine ⟨h.nodes, ?_, ?_⟩
    · rw [← h.inputs]
      simp only [List.map_set]
      exact set_eq_self (by simp [hl])
    · rw [← h.outputs]
      simp only [List.map_set, hlength]
      exact set_eq_self (by simp [hl])

theorem Fitted.foldlM_compute {order : List Nat} (h : p.Fitted)
    (hfold : order.foldlM Patch.compute p = .ok q) : q.Fitted :=
  foldlM_compute_induction (fun h hs => h.compute hs) h hfold

theorem Fitted.after (h : p.Fitted) (hidle : p.Idle) (o : Operation) : (p.after o).Fitted := by
  cases o with
  | add nodeType args =>
    simp only [Patch.after]
    split
    · next hadd => exact h.add hadd
    · exact h
  | connect source outlet target inlet =>
    simp only [Patch.after]
    split
    · next hconnect => exact h.connect hconnect
    · exact h
  | send node inlet m => exact h.send hidle node inlet m
  | setInput node inlet value => exact h.setInput node inlet value
  | setArray | record | drainLog => exact ⟨h.nodes, h.inputs, h.outputs⟩
  | tick =>
    rcases after_tick p with hsame | ⟨order, hfold⟩
    · exact hsame.symm ▸ h
    · exact h.foldlM_compute hfold

theorem Reachable.fitted (h : p.Reachable) : p.Fitted := by
  induction h with
  | new registry settings => exact fitted_new registry settings
  | after hp o ih => exact ih.after hp.idle o

theorem Fitted.exists_node {a : Placement} (h : p.Fitted)
    (ha : p.wiring.placements[n]? = some a) :
    ∃ node, p.traffic.nodes[n]? = some node ∧ node.kind.jacks = a.jacks := by
  have hn := congrArg (·[n]?) h.nodes
  simp only [List.getElem?_map, ha, Option.map_some] at hn
  exact Option.map_eq_some_iff.1 hn

theorem Fitted.exists_placement {node : Node} (h : p.Fitted)
    (hnode : p.traffic.nodes[n]? = some node) :
    ∃ a, p.wiring.placements[n]? = some a ∧ a.jacks = node.kind.jacks := by
  have hn := congrArg (·[n]?) h.nodes
  simp only [List.getElem?_map, hnode, Option.map_some] at hn
  exact Option.map_eq_some_iff.1 hn.symm

theorem Fitted.exists_levels {a : Placement} (h : p.Fitted)
    (ha : p.wiring.placements[n]? = some a) : ∃ l, p.levels[n]? = some l ∧
      l.inputs.length = a.jacks.inlets.length ∧ l.outputs.length = a.jacks.outlets.length := by
  have hinputs := congrArg (·[n]?) h.inputs
  have houtputs := congrArg (·[n]?) h.outputs
  simp only [List.getElem?_map, ha, Option.map_some] at hinputs houtputs
  obtain ⟨l, hl, hin⟩ := Option.map_eq_some_iff.1 hinputs
  rw [hl] at houtputs
  exact ⟨l, hl, hin, Option.some.inj houtputs⟩

theorem Fitted.exists_func (h : p.Fitted) (hn : p.wiring.HasSignal n) :
    ∃ f, p.traffic.nodes[n]? = some (.func f) := by
  obtain ⟨a, ha, hsignal⟩ := hn
  obtain ⟨node, hnode, hjacks⟩ := h.exists_node ha
  rw [← hjacks] at hsignal
  cases node with
  | func f => exact ⟨f, hnode⟩
  | message | tableWrite | tableRead | sampleRate =>
    simp [Node.kind, NodeKind.jacks, Jacks.anySignal] at hsignal

variable {f : SignalFunction}

theorem Fitted.placement_func (h : p.Fitted) (hnode : p.traffic.nodes[n]? = some (.func f)) :
    ∃ a, p.wiring.placements[n]? = some a ∧ a.jacks = ⟨[.signal], [.signal]⟩ :=
  h.exists_placement hnode

theorem Fitted.hasSignal_func (h : p.Fitted) (hnode : p.traffic.nodes[n]? = some (.func f)) :
    p.wiring.HasSignal n := by
  obtain ⟨a, ha, hjacks⟩ := h.placement_func hnode
  exact ⟨a, ha, by rw [hjacks]; rfl⟩

theorem Fitted.levels_func (h : p.Fitted) (hnode : p.traffic.nodes[n]? = some (.func f)) :
    ∃ x y, p.levels[n]? = some ⟨[x], [y]⟩ := by
  obtain ⟨a, ha, hjacks⟩ := h.placement_func hnode
  obtain ⟨⟨inputs, outputs⟩, hl, hin, hout⟩ := h.exists_levels ha
  rw [hjacks] at hin hout
  obtain ⟨x, rfl⟩ := List.length_eq_one_iff.1 hin
  obtain ⟨y, rfl⟩ := List.length_eq_one_iff.1 hout
  exact ⟨x, y, hl⟩

theorem Fitted.outlet_eq_zero {o : Nat} (h : p.Fitted) (ho : p.wiring.outlet? n o = some .signal) :
    o = 0 := by
  obtain ⟨f, hnode⟩ := h.exists_func (Wiring.hasSignal_of_outlet? ho)
  obtain ⟨a, ha, hjacks⟩ := h.placement_func hnode
  simp only [Wiring.outlet?, ha, Option.bind_some, hjacks, Jacks.outlet?] at ho
  simpa using (List.getElem?_eq_some_iff.1 ho).1

end Patch

end Patchbay
