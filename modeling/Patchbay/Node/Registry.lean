import Patchbay.Keyed
import Patchbay.Node.Basic
import Patchbay.Text.Visible

/-!
The registry: node kinds under the names by which a patch asks for them.
-/
namespace Patchbay

/-- A node with the name of its type and its jacks. -/
structure NewNode where
  nodeType : String
  jacks : Jacks
  node : Node

structure Registry where
  entries : List (String × NodeKind)

namespace Registry

/-- The kinds under the names that are theirs. -/
def builtin : Registry where
  entries :=
    [("msg", .message), ("tabwrite", .tableWrite), ("tabread", .tableRead),
      ("samplerate~", .sampleRate)] ++ SignalFunction.all.map fun f => (f.nodeType, .func f)

def kind? (r : Registry) (name : String) : Option NodeKind := r.entries.lookup name

def contains (r : Registry) (name : String) : Bool := (r.kind? name).isSome

/-- Adds a kind under a name, in place of the one that is there. -/
def register (r : Registry) (name : String) (kind : NodeKind) : Registry :=
  ⟨Keyed.put name kind r.entries⟩

@[simp] theorem kind?_register (r : Registry) (name n : String) (kind : NodeKind) :
    (r.register name kind).kind? n = if n = name then some kind else r.kind? n :=
  Keyed.lookup_put name n kind r.entries

/-- The names in the order of their characters. -/
def nodeTypes (r : Registry) : List String :=
  (r.entries.map (·.1)).mergeSort fun a b => decide (a ≤ b)

/-- The names as a set. -/
def listing (r : Registry) : String := "\x7b" ++ Text.listedAll r.nodeTypes ++ "\x7d"

def build (r : Registry) (name : String) (args : List Atom) : Except Error NewNode :=
  match r.kind? name with
  | none => .error (.unknownNodeType name)
  | some kind => do
    let node ← kind.make args
    return ⟨name, kind.jacks, node⟩

end Registry

end Patchbay
