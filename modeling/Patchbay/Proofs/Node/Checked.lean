import Patchbay.Node.Basic

/-!
Messages to nodes with every access by number checked. An access to what is not there is a breach,
and ends the program. A cursor looks at a cell of an array only when it is inside the array, so the
nodes that read and write arrays do with the checks what they do without.
-/
namespace Patchbay

/-- An access to something that is not there. -/
inductive Breach where
  /-- There is no such node. -/
  | node (number : Nat)
  /-- The array has no such cell. -/
  | cell (array : String) (number : Nat)
  /-- No number is left for a new node. -/
  | numbersUsedUp
  /-- A sample asks for a jack that is not there. -/
  | fault (cause : Fault)

namespace TableCursor

/-- Writes to a cell that must be there. -/
def checkedWrite (b : TableCursor) (tables : Tables) (value : Float) :
    Except Breach (WriteResult × Tables) :=
  match tables.get? b.arrayName with
  | none => .ok (.unresolved, tables)
  | some array =>
    if array.isEmpty then .ok (.unresolved, tables)
    else match b.slot? array.size with
      | some i =>
        if h : i < array.size then .ok (.written, tables.put b.arrayName (array.set i value h))
        else .error (.cell b.arrayName i)
      | none => .ok (.outOfRange, tables)

/-- Reads a cell that must be there. -/
def checkedRead (b : TableCursor) (tables : Tables) : Except Breach Float :=
  match tables.get? b.arrayName with
  | none => .ok 0
  | some array =>
    match b.slot? array.size with
    | some i => if h : i < array.size then .ok array[i] else .error (.cell b.arrayName i)
    | none => .ok 0

theorem checkedWrite_eq (b : TableCursor) (tables : Tables) (value : Float) :
    b.checkedWrite tables value = .ok (b.write tables value) := by
  unfold checkedWrite write
  cases tables.get? b.arrayName with
  | none => rfl
  | some array =>
    dsimp only
    cases hslot : b.slot? array.size with
    | none => split <;> rfl
    | some i =>
      have hi : i < array.size := (slot?_eq_some_iff.1 hslot).2
      split
      · rfl
      · simp only [hi, ↓reduceDIte, Array.setIfInBounds]

theorem checkedRead_eq (b : TableCursor) (tables : Tables) :
    b.checkedRead tables = .ok (b.read tables) := by
  unfold checkedRead read
  cases tables.get? b.arrayName with
  | none => rfl
  | some array =>
    dsimp only [Option.bind_some, bind, Option.bind]
    cases hslot : b.slot? array.size with
    | none => rfl
    | some i =>
      have hi : i < array.size := (slot?_eq_some_iff.1 hslot).2
      simp [hi]

end TableCursor

namespace Node

/-- What comes of a message, with the accesses to arrays checked. -/
def checkedReceive (node : Node) (inlet : Nat) (m : Message) (rate : Float) (tables : Tables) :
    Except Breach Reception :=
  match node, inlet, m with
  | tableWrite declared b, 0, [.float value] => do
    let (_, tables) ← b.checkedWrite tables value
    return ⟨.tableWrite declared b, tables, []⟩
  | tableRead declared b, _, [.float index] => do
    let value ← (b.setIndex index).checkedRead tables
    return ⟨.tableRead declared (b.setIndex index), tables, [(0, Message.ofFloats [value])]⟩
  | node, inlet, m => .ok (node.receive inlet m rate tables)

theorem checkedReceive_eq (node : Node) (inlet : Nat) (m : Message) (rate : Float)
    (tables : Tables) :
    node.checkedReceive inlet m rate tables = .ok (node.receive inlet m rate tables) := by
  unfold checkedReceive
  split
  · next declared b value =>
    rw [TableCursor.checkedWrite_eq]
    rfl
  · next declared b _ index =>
    rw [TableCursor.checkedRead_eq]
    rfl
  · rfl

end Node

end Patchbay
