import Patchbay.Node.SignalFunction
import Patchbay.Node.Table
import Patchbay.Jack
import Patchbay.Template.Basic

/-!
Nodes: the closed set of their kinds, what a declaration makes of each, and what a node does with a
message or a sample.
-/
namespace Patchbay

inductive NodeKind where
  | message
  | tableWrite
  | tableRead
  | sampleRate
  | func (f : SignalFunction)
  deriving DecidableEq, Repr

/-- A node and what it keeps: the state that it was declared with, and for some kinds the present
one. -/
inductive Node where
  | message (declared active : Templates)
  | tableWrite (declared : String) (binding : TableCursor)
  | tableRead (declared : String) (binding : TableCursor)
  | sampleRate
  | func (f : SignalFunction)

namespace NodeKind

def jacks : NodeKind → Jacks
  | message => ⟨[.message], [.message]⟩
  | tableWrite => ⟨[.message, .message], []⟩
  | tableRead => ⟨[.message], [.message]⟩
  | sampleRate => ⟨[.message], [.message]⟩
  | func _ => ⟨[.signal], [.signal]⟩

/-- Reads the arguments of a declaration. Some kinds take any arguments and heed none. -/
def make (args : List Atom) : NodeKind → Except Error Node
  | message => do
    let templates ← Templates.ofAtoms args
    return .message templates templates
  | tableWrite => do
    let name ← declaredArray "tabwrite" args
    return .tableWrite name (.ofName name)
  | tableRead => do
    let name ← declaredArray "tabread" args
    return .tableRead name (.ofName name)
  | sampleRate => .ok .sampleRate
  | func f => .ok (.func f)

end NodeKind

/-- What comes of a message: the node and the arrays afterwards, and what is sent on which
outlet. -/
structure Reception where
  node : Node
  tables : Tables
  sent : List (Nat × Message)

namespace Node

def kind : Node → NodeKind
  | message .. => .message
  | tableWrite .. => .tableWrite
  | tableRead .. => .tableRead
  | sampleRate => .sampleRate
  | func f => .func f

/-- A message box replaces its templates or evaluates them. -/
def receiveMessage (declared active : Templates) (m : Message) (tables : Tables) : Reception :=
  match SetOutcome.ofMessage m with
  | .applied templates => ⟨.message declared templates, tables, []⟩
  | .rejected _ => ⟨.message declared active, tables, []⟩
  | .notSet => ⟨.message declared active, tables, (active.evaluate m).map fun out => (0, out)⟩

/-- A number on the first inlet is written to the array, one on the second is the index. -/
def receiveWrite (declared : String) (b : TableCursor) (inlet : Nat) (m : Message)
    (tables : Tables) : Reception :=
  match inlet, m with
  | 0, [.float value] => ⟨.tableWrite declared b, (b.write tables value).2, []⟩
  | 0, m =>
    match TableCursor.namedBy m with
    | some name => ⟨.tableWrite declared (b.setArray name), tables, []⟩
    | none => ⟨.tableWrite declared b, tables, []⟩
  | 1, [.float index] => ⟨.tableWrite declared (b.setIndex index), tables, []⟩
  | _, _ => ⟨.tableWrite declared b, tables, []⟩

/-- A number is an index, and is answered by the value there. -/
def receiveRead (declared : String) (b : TableCursor) (m : Message) (tables : Tables) :
    Reception :=
  match m with
  | [.float index] =>
    let b := b.setIndex index
    ⟨.tableRead declared b, tables, [(0, Message.ofFloats [b.read tables])]⟩
  | m =>
    match TableCursor.namedBy m with
    | some name => ⟨.tableRead declared (b.setArray name), tables, []⟩
    | none => ⟨.tableRead declared b, tables, []⟩

def receive (node : Node) (inlet : Nat) (m : Message) (rate : Float) (tables : Tables) :
    Reception :=
  match node with
  | message declared active => receiveMessage declared active m tables
  | tableWrite declared b => receiveWrite declared b inlet m tables
  | tableRead declared b => receiveRead declared b m tables
  | sampleRate =>
    ⟨.sampleRate, tables, if m.isBang then [(0, Message.ofFloats [rate])] else []⟩
  | func f => ⟨.func f, tables, []⟩

/-- One sample: the outputs of a signal function follow its input, those of other nodes stay. -/
def process (node : Node) (inputs outputs : List Float) : Except Fault (List Float) :=
  match node with
  | func f =>
    match inputs, outputs with
    | x :: _, _ :: rest => .ok (f.apply x :: rest)
    | _, _ => .error .missingJack
  | _ => .ok outputs

end Node

end Patchbay
