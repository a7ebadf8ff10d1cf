import Mathlib
import Patchbay.Proofs.Node.Message
import Patchbay.Proofs.Node.Table

/-!
A cursor in use. Its index and its name are set one independently of the other. A write goes to the
cell that the cursor looks at, or nowhere, and a read gives what was last written to that cell in
the course of all steps.
-/
namespace Patchbay

/-- What a host does with a cursor. -/
inductive TableStep where
  | index (raw : Float)
  | array (name : String)
  | message (m : Message)
  | write (value : Float)
  | read

inductive TableAnswer where
  | done
  /-- Whether a message was a rebinding. -/
  | rebound (accepted : Bool)
  | written (result : WriteResult)
  | value (x : Float)

namespace TableStep

/-- The index that the step sets. -/
def index? : TableStep → Option ℤ
  | index raw => some (Number.truncated raw)
  | _ => none

/-- The name that the step binds to; a message binds only if it is `set` with one name. -/
def name? : TableStep → Option String
  | array name => some name
  | message [.symbol word, .symbol name] => if word = "set" then some name else none
  | _ => none

/-- The index that is set last, zero if none is. -/
def lastIndex (steps : List TableStep) : ℤ := (steps.filterMap index?).getLast?.getD 0

/-- The name that is bound last, the declared one if none is. -/
def lastName (declared : String) (steps : List TableStep) : String :=
  (steps.filterMap name?).getLast?.getD declared

end TableStep

/-- A cursor and the arrays of its host. -/
structure TableSession where
  cursor : TableCursor
  tables : Tables

namespace TableSession

def start (declared : String) (tables : Tables) : TableSession := ⟨.ofName declared, tables⟩

def answer (s : TableSession) : TableStep → TableAnswer
  | .index _ => .done
  | .array _ => .done
  | .message m => .rebound (TableCursor.namedBy m).isSome
  | .write x => .written (s.cursor.write s.tables x).1
  | .read => .value (s.cursor.read s.tables)

def after (s : TableSession) : TableStep → TableSession
  | .index raw => { s with cursor := s.cursor.setIndex raw }
  | .array name => { s with cursor := s.cursor.setArray name }
  | .message m =>
    match TableCursor.namedBy m with
    | some name => { s with cursor := s.cursor.setArray name }
    | none => s
  | .write x => { s with tables := (s.cursor.write s.tables x).2 }
  | .read => s

def run (s : TableSession) (steps : List TableStep) : TableSession := steps.foldl after s

/-- What the step writes to the cell. -/
def writtenTo (cell : TableCursor) (s : TableSession) : TableStep → Option Float
  | .write x =>
    if s.cursor = cell ∧ (s.cursor.write s.tables x).1 = .written then some x else none
  | _ => none

/-- What is written to the cell last in the course of the steps. -/
def lastWritten (cell : TableCursor) : TableSession → List TableStep → Option Float
  | _, [] => none
  | s, step :: steps => (lastWritten cell (s.after step) steps).or (s.writtenTo cell step)

end TableSession

namespace TableCursor

variable {b : TableCursor} {tables after : Tables} {x : Float} {m : Message} {result : WriteResult}

/-- The outcomes of a write: what is reported when, and the arrays afterwards. -/
inductive Writes (b : TableCursor) (tables : Tables) (x : Float) : WriteResult → Tables → Prop
  | unresolved
      (hnone : tables.get? b.arrayName = none ∨ tables.get? b.arrayName = some #[]) :
    Writes b tables x .unresolved tables
  | outOfRange (array : Array Float) (hget : tables.get? b.arrayName = some array)
      (hne : array ≠ #[]) (hindex : ¬(0 ≤ b.index ∧ b.index < array.size)) :
    Writes b tables x .outOfRange tables
  | written (array : Array Float) (i : ℕ) (hget : tables.get? b.arrayName = some array)
      (hindex : b.index = i) (hlt : i < array.size) :
    Writes b tables x .written (tables.put b.arrayName (array.setIfInBounds i x))

theorem writes_write (b : TableCursor) (tables : Tables) (x : Float) :
    Writes b tables x (b.write tables x).1 (b.write tables x).2 := by
  unfold write
  split
  · next hget => exact .unresolved (.inl hget)
  · next array hget =>
    split
    · next hempty =>
      rw [Array.isEmpty_iff.1 hempty] at hget
      exact .unresolved (.inr hget)
    · next hfilled =>
      split
      · next i hslot =>
        obtain ⟨hindex, hlt⟩ := slot?_eq_some_iff.1 hslot
        exact .written array i hget hindex hlt
      · next hslot =>
        refine .outOfRange array hget (by simpa using hfilled) fun hindex => ?_
        rw [slot?, if_pos hindex] at hslot
        cases hslot

theorem Writes.unresolved_iff (h : Writes b tables x result after) : result = .unresolved ↔
    tables.get? b.arrayName = none ∨ tables.get? b.arrayName = some #[] := by
  constructor
  · rintro rfl
    cases h with
    | unresolved hnone => exact hnone
  · intro hnone
    cases h with
    | unresolved => rfl
    | outOfRange array hget hne => simp [hget, hne] at hnone
    | written array i hget hindex hlt =>
      obtain rfl : array = #[] := by simpa [hget] using hnone
      cases hlt

theorem Writes.outOfRange_iff (h : Writes b tables x result after) : result = .outOfRange ↔
    ∃ array, tables.get? b.arrayName = some array ∧ array ≠ #[] ∧
      ¬(0 ≤ b.index ∧ b.index < array.size) := by
  constructor
  · rintro rfl
    cases h with
    | outOfRange array hget hne hindex => exact ⟨array, hget, hne, hindex⟩
  · rintro ⟨array, hget, hne, hindex⟩
    cases h with
    | unresolved hnone => simp [hget, hne] at hnone
    | outOfRange => rfl
    | written array' i hget' hi hlt =>
      obtain rfl := Option.some.inj (hget.symm.trans hget')
      omega

theorem Writes.written_iff (h : Writes b tables x result after) : result = .written ↔
    ∃ array, tables.get? b.arrayName = some array ∧ 0 ≤ b.index ∧ b.index < array.size := by
  constructor
  · rintro rfl
    cases h with
    | written array i hget hindex hlt => exact ⟨array, hget, by omega, by omega⟩
  · rintro ⟨array, hget, hindex⟩
    cases h with
    | unresolved hnone =>
      obtain rfl : array = #[] := by simpa [hget] using hnone
      simp only [Array.size_empty] at hindex
      omega
    | outOfRange array' hget' hne hout =>
      obtain rfl := Option.some.inj (hget.symm.trans hget')
      exact absurd hindex hout
    | written => rfl

/-- A write that is not reported as done changes no array. -/
theorem Writes.eq_of_ne (h : Writes b tables x result after) (hne : result ≠ .written) :
    after = tables := by
  cases h with
  | unresolved => rfl
  | outOfRange => rfl
  | written => exact absurd rfl hne

/-- A write that is reported as done changes the cell that the cursor looks at, and no other. -/
theorem Writes.cell?_eq (h : Writes b tables x .written after) (name : String) (i : ℕ) :
    after.cell? name i = if b = ⟨name, i⟩ then some x else tables.cell? name i := by
  obtain ⟨bound, index⟩ := b
  cases h with
  | written array j hget hindex hlt =>
    dsimp only at hget hindex hlt ⊢
    subst hindex
    simp only [TableCursor.mk.injEq, Int.natCast_inj]
    rw [Tables.cell?, Tables.get?_put, Tables.cell?]
    rcases eq_or_ne name bound with rfl | hname
    · rcases eq_or_ne j i with rfl | hi
      · simp [hlt]
      · simp [hget, hi]
    · simp [hname, hname.symm]

/-- Where a write is done, there is a cell, and its value is what is read. -/
theorem Writes.read_eq (h : Writes b tables x .written after) :
    ∃ i : ℕ, b.index = i ∧ tables.cell? b.arrayName i = some (b.read tables) := by
  cases h with
  | written array i hget hindex hlt =>
    refine ⟨i, hindex, ?_⟩
    have hslot : b.slot? array.size = some i := slot?_eq_some_iff.2 ⟨hindex, hlt⟩
    simp [Tables.cell?, read, hget, hslot, hlt]

/-- Where no write is done, zero is read. -/
theorem Writes.read_eq_zero (h : Writes b tables x result after) (hne : result ≠ .written) :
    b.read tables = 0 := by
  have hslot (array : Array Float) (hget : tables.get? b.arrayName = some array) :
      b.slot? array.size = none := by
    rw [slot?, if_neg]
    intro hindex
    exact hne (h.written_iff.2 ⟨array, hget, hindex⟩)
  rw [read]
  cases hget : tables.get? b.arrayName with
  | none => rfl
  | some array => simp [hslot array hget]

theorem namedBy_eq_some_iff {name : String} :
    namedBy m = some name ↔ m = [.symbol "set", .symbol name] := by
  constructor
  · intro h
    unfold namedBy at h
    split at h
    · split at h
      · next hset => rw [Atom.isSymbol_iff.1 hset, Option.some.inj h]
      · cases h
    · cases h
  · rintro rfl
    rfl

end TableCursor

namespace TableStep

theorem lastName_concat (declared : String) (steps : List TableStep) (step : TableStep) :
    lastName declared (steps ++ [step]) = step.name?.getD (lastName declared steps) := by
  rw [lastName, getLast?_filterMap_concat, Option.getD_or, lastName]

theorem lastIndex_concat (steps : List TableStep) (step : TableStep) :
    lastIndex (steps ++ [step]) = step.index?.getD (lastIndex steps) := by
  rw [lastIndex, getLast?_filterMap_concat, Option.getD_or, lastIndex]

theorem name?_message (m : Message) : (message m).name? = TableCursor.namedBy m := by
  unfold name?
  split
  · next h => cases h
  · next word name h =>
    obtain rfl := TableStep.message.inj h
    simp [TableCursor.namedBy, Atom.isSymbol_iff]
  · next hother =>
    symm
    rw [Option.eq_none_iff_forall_ne_some]
    intro name h
    rw [TableCursor.namedBy_eq_some_iff] at h
    exact hother "set" name (congrArg _ h)

end TableStep

namespace TableSession

variable {s : TableSession} {step : TableStep}

/-- A step that does not set the index or the name leaves it as it is. -/
theorem cursor_after (s : TableSession) (step : TableStep) : (s.after step).cursor =
    ⟨step.name?.getD s.cursor.arrayName, step.index?.getD s.cursor.index⟩ := by
  cases step with
  | index raw => rfl
  | array name => rfl
  | message m =>
    rw [TableStep.name?_message, after]
    cases TableCursor.namedBy m <;> rfl
  | write x => rfl
  | read => rfl

theorem run_concat (s : TableSession) (steps : List TableStep) (step : TableStep) :
    s.run (steps ++ [step]) = (s.run steps).after step :=
  List.foldl_concat _ _ _ _

theorem cursor_run (declared : String) (tables : Tables) (steps : List TableStep) :
    ((start declared tables).run steps).cursor =
      ⟨TableStep.lastName declared steps, TableStep.lastIndex steps⟩ := by
  induction steps using List.reverseRecOn with
  | nil => rfl
  | append_singleton steps step ih =>
    rw [run_concat, cursor_after, ih, TableStep.lastName_concat, TableStep.lastIndex_concat]

theorem answer_message_iff {m : Message} : s.answer (.message m) = .rebound true ↔
    ∃ name, m = [.symbol "set", .symbol name] := by
  simp only [answer, TableAnswer.rebound.injEq, Option.isSome_iff_exists,
    TableCursor.namedBy_eq_some_iff]

theorem tables_after (h : s.answer step ≠ .written .written) :
    (s.after step).tables = s.tables := by
  cases step with
  | index raw => rfl
  | array name => rfl
  | message m =>
    rw [after]
    cases TableCursor.namedBy m <;> rfl
  | write x =>
    exact (TableCursor.writes_write s.cursor s.tables x).eq_of_ne fun hwritten =>
      h (congrArg _ hwritten)
  | read => rfl

/-- No array comes, goes or changes its size. -/
theorem size_after (s : TableSession) (step : TableStep) (name : String) :
    ((s.after step).tables.get? name).map Array.size = (s.tables.get? name).map Array.size := by
  by_cases h : s.answer step = .written .written
  · cases step with
    | write x => exact TableCursor.size_write s.cursor s.tables x name
    | index | array | message | read => cases h
  · rw [tables_after h]

theorem cell?_after (s : TableSession) (step : TableStep) (name : String) (i : ℕ) :
    (s.after step).tables.cell? name i =
      (s.writtenTo ⟨name, i⟩ step).or (s.tables.cell? name i) := by
  by_cases h : s.answer step = .written .written
  · cases step with
    | write x =>
      have hwritten : (s.cursor.write s.tables x).1 = .written := TableAnswer.written.inj h
      have hwrites := TableCursor.writes_write s.cursor s.tables x
      rw [hwritten] at hwrites
      rw [after, hwrites.cell?_eq name i, writtenTo]
      simp only [hwritten, and_true]
      split <;> rfl
    | index | array | message | read => cases h
  · have hnone : s.writtenTo ⟨name, i⟩ step = none := by
      cases step with
      | write x => exact if_neg fun hwritten => h (congrArg _ hwritten.2)
      | index | array | message | read => rfl
    rw [tables_after h, hnone, Option.none_or]

/-- A cell has the value that was last written to it, at first the one that it came with. -/
theorem cell?_run (s : TableSession) (steps : List TableStep) (name : String) (i : ℕ) :
    (s.run steps).tables.cell? name i =
      (lastWritten ⟨name, i⟩ s steps).or (s.tables.cell? name i) := by
  induction steps generalizing s with
  | nil => rfl
  | cons step steps ih =>
    -- What a later step writes to the cell stands before what this one does.
    rw [lastWritten, Option.or_assoc, ← cell?_after]
    exact ih (s.after step)

/-- What a cursor does after any steps: where it looks, what its answers depend on, what a step
changes, and what is read. -/
theorem run_history (declared : String) (tables : Tables) (steps : List TableStep) :
    let s := (start declared tables).run steps
    let b := s.cursor
    b = ⟨TableStep.lastName declared steps, TableStep.lastIndex steps⟩ ∧
    (∀ m, s.answer (.message m) = .rebound true ↔
      ∃ name, m = [.symbol "set", .symbol name]) ∧
    (∀ x,
      (s.answer (.write x) = .written .unresolved ↔
        s.tables.get? b.arrayName = none ∨ s.tables.get? b.arrayName = some #[]) ∧
      (s.answer (.write x) = .written .outOfRange ↔
        ∃ array, s.tables.get? b.arrayName = some array ∧ array ≠ #[] ∧
          ¬(0 ≤ b.index ∧ b.index < array.size)) ∧
      (s.answer (.write x) = .written .written ↔
        ∃ array, s.tables.get? b.arrayName = some array ∧
          0 ≤ b.index ∧ b.index < array.size)) ∧
    (∀ step, s.answer step ≠ .written .written → (s.after step).tables = s.tables) ∧
    (∀ x, s.answer (.write x) = .written .written →
      (∀ name (i : ℕ), (s.after (.write x)).tables.cell? name i =
        if b = ⟨name, i⟩ then some x else s.tables.cell? name i) ∧
      ∀ name, ((s.after (.write x)).tables.get? name).map Array.size =
        (s.tables.get? name).map Array.size) ∧
    (∀ x, s.answer (.write x) = .written .written →
      ∃ (i : ℕ) (y : Float), b.index = i ∧ s.answer .read = .value y ∧
        (lastWritten b (start declared tables) steps).or (tables.cell? b.arrayName i) = some y) ∧
    ∀ x, s.answer (.write x) ≠ .written .written → s.answer .read = .value 0 := by
  intro s b
  have hwrites (x : Float) := TableCursor.writes_write b s.tables x
  have hanswer (x : Float) (result : WriteResult) :
      s.answer (.write x) = .written result ↔ (b.write s.tables x).1 = result :=
    iff_of_eq (TableAnswer.written.injEq _ _)
  have hdone {x : Float} (h : s.answer (.write x) = .written .written) :
      TableCursor.Writes b s.tables x .written (s.after (.write x)).tables :=
    (hanswer x .written).1 h ▸ hwrites x
  refine ⟨cursor_run declared tables steps, fun m => answer_message_iff, fun x => ?_,
    fun step => tables_after, fun x h => ?_, fun x h => ?_, fun x h => ?_⟩
  · simp only [hanswer]
    exact ⟨(hwrites x).unresolved_iff, (hwrites x).outOfRange_iff, (hwrites x).written_iff⟩
  · exact ⟨(hdone h).cell?_eq, size_after s (.write x)⟩
  · obtain ⟨i, hindex, hcell⟩ := (hdone h).read_eq
    have hb : b = ⟨b.arrayName, i⟩ := by rw [← hindex]
    have hrun := cell?_run (start declared tables) steps b.arrayName i
    rw [← hb] at hrun
    exact ⟨i, _, hindex, rfl, hrun.symm.trans hcell⟩
  · have hread := (hwrites x).read_eq_zero fun hwritten => h ((hanswer x .written).2 hwritten)
    exact congrArg _ hread

end TableSession

end Patchbay
