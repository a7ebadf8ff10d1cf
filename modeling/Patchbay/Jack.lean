/-!
Jacks: the inlets and outlets of a node, where connections begin and end. Each carries one kind of
thing, and both sides are numbered from zero.
-/
namespace Patchbay

inductive JackKind where
  | message
  | signal
  deriving DecidableEq, Repr

def JackKind.text : JackKind → String
  | message => "Message"
  | signal => "Signal"

/-- The jacks of a node. They never change. -/
structure Jacks where
  inlets : List JackKind
  outlets : List JackKind
  deriving DecidableEq, Repr

namespace Jacks

def inlet? (j : Jacks) (i : Nat) : Option JackKind := j.inlets[i]?

def outlet? (j : Jacks) (o : Nat) : Option JackKind := j.outlets[o]?

/-- The numbers of the jacks that are of the given kind. -/
def ofKind (kind : JackKind) (jacks : List JackKind) : List Nat :=
  jacks.zipIdx.filterMap fun (k, i) => if k = kind then some i else none

def messageInlets (j : Jacks) : List Nat := ofKind .message j.inlets

def signalInlets (j : Jacks) : List Nat := ofKind .signal j.inlets

def signalOutlets (j : Jacks) : List Nat := ofKind .signal j.outlets

def anySignal (j : Jacks) : Bool := (j.inlets ++ j.outlets).any (· = .signal)

end Jacks

end Patchbay
