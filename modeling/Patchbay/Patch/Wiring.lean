import Patchbay.Digraph.Sort
import Patchbay.Jack

/-!
Wiring: which nodes a patch has and how their jacks are connected. Messages and signals never
change it.
-/
namespace Patchbay

structure Placement where
  nodeType : String
  jacks : Jacks

/-- A connection of two jacks of one kind. -/
structure Connection where
  source : Nat
  outlet : Nat
  target : Nat
  inlet : Nat
  kind : JackKind
  deriving DecidableEq, Repr

/-- Nodes by number, and connections in the order in which they were made. -/
structure Wiring where
  placements : List Placement
  connections : List Connection
  /-- The nodes with signal jacks, with one edge for all signal connections from one to another. -/
  signalGraph : Digraph Nat

namespace Wiring

def empty : Wiring := ⟨[], [], .empty⟩

def size (w : Wiring) : Nat := w.placements.length

def place (w : Wiring) (p : Placement) : Wiring :=
  { w with
    placements := w.placements ++ [p]
    signalGraph := if p.jacks.anySignal then w.signalGraph.addVertex w.size else w.signalGraph }

def join (w : Wiring) (c : Connection) : Wiring :=
  { w with
    connections := w.connections ++ [c]
    signalGraph :=
      if c.kind = .signal then w.signalGraph.addEdge c.source c.target else w.signalGraph }

def outlet? (w : Wiring) (node outlet : Nat) : Option JackKind :=
  w.placements[node]?.bind (·.jacks.outlet? outlet)

def inlet? (w : Wiring) (node inlet : Nat) : Option JackKind :=
  w.placements[node]?.bind (·.jacks.inlet? inlet)

/-- The connections out of a node, newest first. -/
def outgoing (w : Wiring) (node : Nat) : List Connection :=
  w.connections.reverse.filter (·.source = node)

/-- The connections into a node, newest first. -/
def incoming (w : Wiring) (node : Nat) : List Connection :=
  w.connections.reverse.filter (·.target = node)

/-- The inlets that a message sent on an outlet goes to. The connections come newest first, and what
they lead to is turned round. -/
def targets (w : Wiring) (source outlet : Nat) : List (Nat × Nat) :=
  (((w.outgoing source).filter fun c => c.outlet = outlet ∧ c.kind = .message).map
    fun c => (c.target, c.inlet)).reverse

/-- The signal connections into a node, newest first. -/
def signalsInto (w : Wiring) (target : Nat) : List Connection :=
  (w.incoming target).filter (·.kind = .signal)

/-- Messages go to the oldest connection first. -/
theorem targets_eq (w : Wiring) (source outlet : Nat) :
    w.targets source outlet = (w.connections.filter fun c =>
      c.source = source ∧ c.outlet = outlet ∧ c.kind = .message).map
        fun c => (c.target, c.inlet) := by
  rw [targets, outgoing, List.filter_filter, List.filter_reverse, List.map_reverse,
    List.reverse_reverse]
  congr 2
  funext c
  simp [Bool.and_comm]

theorem lt_size_of_inlet? {w : Wiring} {node inlet : Nat} {kind : JackKind}
    (h : w.inlet? node inlet = some kind) : node < w.size := by
  simp only [inlet?, Option.bind_eq_some_iff] at h
  obtain ⟨p, hp, _⟩ := h
  exact (List.getElem?_eq_some_iff.1 hp).1

end Wiring

end Patchbay
