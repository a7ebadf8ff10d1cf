import Patchbay.Node.Basic

/-!
Cells of named arrays. A write changes at most the cell that the cursor looks at, and no array comes,
goes or changes its size. Of all nodes only those that write arrays change any, when a number comes
to their first inlet.
-/
namespace Patchbay

/-- The value in a cell of an array, if there is such a cell. -/
def Tables.cell? (tables : Tables) (name : String) (i : Nat) : Option Float :=
  (tables.get? name).bind (·[i]?)

namespace TableCursor

/-- A write does nothing, or puts the value into the cell that the cursor looks at. -/
theorem write_cases (b : TableCursor) (tables : Tables) (value : Float) :
    (b.write tables value).2 = tables ∨ ∃ array, ∃ i : Nat,
      tables.get? b.arrayName = some array ∧ b.index = i ∧ i < array.size ∧
      (b.write tables value).2 = tables.put b.arrayName (array.setIfInBounds i value) := by
  unfold write
  split
  · exact .inl rfl
  · next array hget =>
    split
    · exact .inl rfl
    · split
      · next i hslot =>
        obtain ⟨hindex, hlt⟩ := slot?_eq_some_iff.1 hslot
        exact .inr ⟨array, i, hget, hindex, hlt, rfl⟩
      · exact .inl rfl

theorem size_write (b : TableCursor) (tables : Tables) (value : Float) (name : String) :
    ((b.write tables value).2.get? name).map Array.size = (tables.get? name).map Array.size := by
  rcases write_cases b tables value with hsame | ⟨array, i, hget, -, -, hput⟩
  · rw [hsame]
  · rw [hput, Tables.get?_put]
    split
    · next hname => simp [hname, hget]
    · rfl

theorem cell?_write (b : TableCursor) (tables : Tables) (value : Float) (name : String) (i : Nat) :
    (b.write tables value).2.cell? name i = tables.cell? name i ∨ b = ⟨name, i⟩ := by
  rcases write_cases b tables value with hsame | ⟨array, j, hget, hindex, -, hput⟩
  · exact .inl (by rw [hsame])
  · by_cases hcell : name = b.arrayName ∧ i = j
    · obtain ⟨rfl, rfl⟩ := hcell
      exact .inr (by rw [← hindex])
    · left
      rw [hput, Tables.cell?, Tables.get?_put, Tables.cell?]
      split
      · next hname =>
        have hij : j ≠ i := fun h => hcell ⟨hname, h.symm⟩
        simp [hname, hget, hij]
      · rfl

end TableCursor

/-- A message leaves the arrays as they are, unless it is a number to be written. -/
theorem Node.tables_receive (node : Node) (inlet : Nat) (m : Message) (rate : Float)
    (tables : Tables) : (node.receive inlet m rate tables).tables = tables ∨
      ∃ declared b x, node = .tableWrite declared b ∧ inlet = 0 ∧ m = [.float x] ∧
        (node.receive inlet m rate tables).tables = (b.write tables x).2 := by
  cases node with
  | message declared active =>
    left
    unfold receive receiveMessage
    dsimp only
    split <;> rfl
  | tableWrite declared b =>
    unfold receive receiveWrite
    dsimp only
    split
    · next x => exact .inr ⟨declared, b, x, rfl, rfl, rfl, rfl⟩
    · split <;> exact .inl rfl
    · exact .inl rfl
    · exact .inl rfl
  | tableRead declared b =>
    left
    unfold receive receiveRead
    dsimp only
    split
    · rfl
    · split <;> rfl
  | sampleRate => exact .inl rfl
  | func f => exact .inl rfl

end Patchbay
