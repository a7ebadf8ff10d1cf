import Patchbay.Number.Text

/-!
Messages: the discrete values that travel between nodes. A message is a list of atoms, and an atom
is a number or a symbol.
-/
namespace Patchbay

inductive Atom where
  | float (value : Float)
  | symbol (text : String)
  deriving DecidableEq

namespace Atom

def asFloat? : Atom → Option Float
  | float x => some x
  | symbol _ => none

def asSymbol? : Atom → Option String
  | float _ => none
  | symbol s => some s

def isSymbol (a : Atom) (s : String) : Bool := a.asSymbol? = some s

end Atom

/-- Whole numbers below this bound are written by their digits alone. -/
def wholeTextBound : Nat := 1_000_000_000_000_000

/-- The text of a number: small whole numbers are written as integers, which leaves zero without a
sign; all others plainly. -/
def numberText (x : Float) : String :=
  match Number.whole? x with
  | some n => if n.natAbs < wholeTextBound then toString n else Number.plain x
  | none => Number.plain x

def Atom.text : Atom → String
  | .float x => numberText x
  | .symbol s => s

abbrev Message := List Atom

namespace Message

/-- The message that triggers a node. -/
def bang : Message := [.symbol "bang"]

def ofFloats (xs : List Float) : Message := xs.map .float

def isBang : Message → Bool
  | [a] => a.isSymbol "bang"
  | _ => false

def isFloat : Message → Bool
  | [.float _] => true
  | _ => false

/-- Whether the first atom is the symbol `selector`. -/
def startsWith (m : Message) (selector : String) : Bool :=
  match m with
  | a :: _ => a.isSymbol selector
  | [] => false

def floatAt? (m : Message) (i : Nat) : Option Float := m[i]?.bind Atom.asFloat?

def symbolAt? (m : Message) (i : Nat) : Option String := m[i]?.bind Atom.asSymbol?

def text (m : Message) : String := "[" ++ " ".intercalate (m.map Atom.text) ++ "]"

@[simp] theorem isBang_bang : bang.isBang = true := rfl

end Message

end Patchbay
