import Patchbay.Node.Registry
import Patchbay.Patch.Delivery

/-!
Patches: nodes, connections and named arrays, at work. Nodes are numbered from zero as they are
added.
-/
namespace Patchbay

/-- The signal values of a node: those of its unconnected inlets, and the last ones computed. -/
structure Levels where
  inputs : List Float
  outputs : List Float

structure Patch where
  registry : Registry
  sampleRate : Float
  wiring : Wiring
  traffic : Traffic
  levels : List Levels

namespace Patch

def new (registry : Registry) (settings : Settings) : Patch where
  registry := registry
  sampleRate := settings.sampleRate
  wiring := .empty
  traffic := .idle
  levels := []

/-- Adds a node, and gives its number. -/
def add (p : Patch) (nodeType : String) (args : List Atom) : Except Error (Patch × Nat) := do
  let made ← p.registry.build nodeType args
  let jacks := made.jacks
  return ({ p with
    wiring := p.wiring.place ⟨made.nodeType, jacks⟩
    traffic := { p.traffic with nodes := p.traffic.nodes ++ [made.node] }
    levels := p.levels ++
      [⟨List.replicate jacks.inlets.length 0, List.replicate jacks.outlets.length 0⟩] },
    p.wiring.size)

def placement (p : Patch) (node : Nat) : Except ConnectionFault Placement :=
  match p.wiring.placements[node]? with
  | some placement => .ok placement
  | none => .error (.noNode node)

/-- The kind of a connection between two jacks, which both must have. -/
def connectionKind (a b : Placement) (outlet inlet : Nat) : Except ConnectionFault JackKind :=
  match a.jacks.outlet? outlet, b.jacks.inlet? inlet with
  | none, _ => .error (.noOutlet a.nodeType outlet)
  | some _, none => .error (.noInlet b.nodeType inlet)
  | some x, some y =>
    if x = y then .ok x
    else .error (.kindsDiffer x outlet a.nodeType y inlet b.nodeType)

/-- The wiring with one connection more. Signal connections must not form a loop. -/
def connected (p : Patch) (source outlet target inlet : Nat) : Except ConnectionFault Wiring := do
  let a ← p.placement source
  let b ← p.placement target
  let kind ← connectionKind a b outlet inlet
  let wiring := p.wiring.join ⟨source, outlet, target, inlet, kind⟩
  if kind = .signal ∧ !wiring.signalGraph.isAcyclic then
    .error (.signalLoop a.nodeType b.nodeType)
  else .ok wiring

def connect (p : Patch) (source outlet target inlet : Nat) : Except Error Patch :=
  match p.connected source outlet target inlet with
  | .ok wiring => .ok { p with wiring }
  | .error cause => .error (.connection cause)

/-- Gives a message to an inlet, and lets all happen that follows. -/
def send (p : Patch) (node inlet : Nat) (m : Message) : Patch :=
  { p with
    traffic :=
      { p.traffic with queued := 0 }.deliver p.wiring p.sampleRate ⟨node, inlet, m⟩ }

def record (p : Patch) (on : Bool) : Patch :=
  { p with traffic := { p.traffic with recording := on } }

def sent (p : Patch) : List Sent := p.traffic.log.toList

/-- What was recorded so far, and the patch without it. -/
def drainLog (p : Patch) : List Sent × Patch :=
  (p.sent, { p with traffic := { p.traffic with log := #[] } })

/-- The recorded messages of one outlet. -/
def loggedFrom (p : Patch) (node outlet : Nat) : List Message :=
  (p.sent.filter fun s => s.node = node ∧ s.outlet = outlet).map (·.message)

def setArray (p : Patch) (name : String) (values : Array Float) : Patch :=
  { p with traffic := { p.traffic with tables := p.traffic.tables.put name values } }

def array? (p : Patch) (name : String) : Option (Array Float) := p.traffic.tables.get? name

end Patch

end Patchbay
