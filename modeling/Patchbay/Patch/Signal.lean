import Patchbay.Patch.Basic

/-!
Signals: one sample for every signal node, each node after those that feed it.
-/
namespace Patchbay

/-- The inputs of a node as they are gathered, and which inlets have been fed so far. -/
structure Gathering where
  inputs : List Float
  connected : List Bool

namespace Gathering

def start (own : List Float) : Gathering := ⟨own, List.replicate own.length false⟩

/-- Feeds an inlet. The first value replaces the inlet's own, and the others are added to it. -/
def feed (g : Gathering) (inlet : Nat) (value : Float) : Except Fault Gathering :=
  match g.inputs[inlet]?, g.connected[inlet]? with
  | some sum, some true => .ok { g with inputs := g.inputs.set inlet (sum + value) }
  | some _, some false => .ok ⟨g.inputs.set inlet value, g.connected.set inlet true⟩
  | _, _ => .error .missingJack

end Gathering

namespace Patch

/-- The value of an inlet while nothing is connected to it. -/
def setInput (p : Patch) (node inlet : Nat) (value : Float) : Patch :=
  { p with levels := p.levels.modify node fun l => { l with inputs := l.inputs.set inlet value } }

/-- The last value of an outlet. -/
def output? (p : Patch) (node outlet : Nat) : Option Float :=
  p.levels[node]?.bind (·.outputs[outlet]?)

def outputOf (p : Patch) (c : Connection) : Except Fault Float :=
  match p.output? c.source c.outlet with
  | some x => .ok x
  | none => .error .missingJack

/-- The inputs of a node, gathered from its own values and the signal connections into it. -/
def inputs (p : Patch) (node : Nat) (own : List Float) : Except Fault (List Float) := do
  let gathered ← (p.wiring.signalsInto node).foldlM
    (fun (g : Gathering) c => do g.feed c.inlet (← p.outputOf c)) (.start own)
  return gathered.inputs

/-- One sample of one node. A node in the midst of a message is passed over. -/
def compute (p : Patch) (node : Nat) : Except Fault Patch :=
  match p.levels[node]?, p.traffic.nodes[node]? with
  | some levels, some n => do
    let inputs ← p.inputs node levels.inputs
    if node ∈ p.traffic.busy then return p
    let outputs ← n.process inputs levels.outputs
    return { p with levels := p.levels.set node { levels with outputs } }
  | _, _ => .error .missingJack

/-- One sample of every signal node. A patch with a signal loop stands still. -/
def tick (p : Patch) : Except Fault Patch :=
  match p.wiring.signalGraph.sort with
  | .ok order => order.foldlM compute p
  | .error _ => .ok p

/-- Several samples, at least one. -/
def ticks (p : Patch) : Nat → Except Fault Patch
  | 0 => p.tick
  | 1 => p.tick
  | n + 2 => do (← p.tick).ticks (n + 1)

end Patch

end Patchbay
