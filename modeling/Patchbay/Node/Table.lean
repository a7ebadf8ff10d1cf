import Patchbay.Error
import Patchbay.Keyed
import Patchbay.Node.State

/-!
Named arrays, and the access to one of them by name and index that some nodes keep.
-/
namespace Patchbay

/-- Arrays by name. -/
structure Tables where
  entries : List (String × Array Float)

namespace Tables

def empty : Tables := ⟨[]⟩

def get? (t : Tables) (name : String) : Option (Array Float) := t.entries.lookup name

def put (t : Tables) (name : String) (values : Array Float) : Tables :=
  ⟨Keyed.put name values t.entries⟩

@[simp] theorem get?_put (t : Tables) (name n : String) (values : Array Float) :
    (t.put name values).get? n = if n = name then some values else t.get? n :=
  Keyed.lookup_put name n values t.entries

end Tables

/-- Reads the declared name of an array from the arguments of a node; without arguments the name is
empty. -/
def declaredArray (nodeType : String) : List Atom → Except Error String
  | [] => .ok ""
  | [.symbol name] => .ok name
  | [.float x] => .error (.declaration nodeType (.nameIsNumber x))
  | args => .error (.declaration nodeType (.tooManyArguments args.length))

inductive WriteResult where
  | written
  /-- No array has the name, or it has no cells. -/
  | unresolved
  | outOfRange
  deriving DecidableEq, Repr

/-- The array that a node is bound to, and the cell that it looks at. -/
structure TableCursor where
  arrayName : String
  index : Int
  deriving DecidableEq, Repr

namespace TableCursor

def ofName (name : String) : TableCursor := ⟨name, 0⟩

def setIndex (b : TableCursor) (raw : Float) : TableCursor :=
  { b with index := Number.truncated raw }

def setArray (b : TableCursor) (name : String) : TableCursor := { b with arrayName := name }

/-- The array name in a message `set <name>`. -/
def namedBy : Message → Option String
  | [first, .symbol name] => if first.isSymbol "set" then some name else none
  | _ => none

/-- The cell that is looked at in an array of the given length. -/
def slot? (b : TableCursor) (length : Nat) : Option Nat :=
  if 0 ≤ b.index ∧ b.index < length then some b.index.toNat else none

def write (b : TableCursor) (tables : Tables) (value : Float) : WriteResult × Tables :=
  match tables.get? b.arrayName with
  | none => (.unresolved, tables)
  | some array =>
    if array.isEmpty then (.unresolved, tables)
    else match b.slot? array.size with
      | some i => (.written, tables.put b.arrayName (array.setIfInBounds i value))
      | none => (.outOfRange, tables)

/-- The value in the cell, zero if there is no such cell. -/
def read (b : TableCursor) (tables : Tables) : Float :=
  (do
    let array ← tables.get? b.arrayName
    let i ← b.slot? array.size
    array[i]?).getD 0

theorem slot?_eq_some_iff {b : TableCursor} {length i : Nat} :
    b.slot? length = some i ↔ b.index = i ∧ i < length := by
  unfold slot?
  split <;> simp <;> omega

end TableCursor

end Patchbay
