import Mathlib
import Patchbay.Node.Generation
import Patchbay.Proofs.Code.Expression
import Patchbay.Proofs.Node.Cursor

/-!
The guard that the emitted program puts before each access to a cell, next to what the host does.
The host keeps the index as an integer and the program as a float that is cut, and for numbers both
come to the same cells. The guard does not hold of an index that is no number, which the host takes
for zero.
-/
namespace Patchbay

open Number Script

namespace Table

/-- Holds when a write to the cell is dropped. -/
def dropCode (index array : String) : String :=
  s!"{array}.length === 0 || !({inRangeCode index array})"

/-- The value that is read. -/
def readCode (index array : String) : String :=
  s!"{inRangeCode index array} ? {array}[{index}] : 0"

def zero : Expression := .number (.decimal false ⟨0, 0⟩)

def lengthOf (array : String) : Expression := .member (.name array) "length"

/-- What the text for a cut index is read as. -/
def cutOf (raw : String) : Expression := .call (.member (.name "Math") "trunc") (.name raw)

/-- What the text of the guard is read as. -/
def inRange (index : Expression) (array : String) : Expression :=
  .operation .and (.operation .atLeast index zero) (.operation .less index (lengthOf array))

section Reading

variable {raw index array : String}

theorem tokens_indexCode (hraw : Text.isIdentifier raw.toList) : tokens (indexCode raw).toList =
    [.name "Math", .mark .dot, .name "trunc", .mark .open, .name raw, .mark .close] := by
  have hhead : tokens "Math.trunc(".toList =
      [.name "Math", .mark .dot, .name "trunc", .mark .open] := by decide
  have hclose : tokens ")".toList = [.mark .close] := by decide
  simp only [indexCode, String.toList_append, ToString.toString, List.append_assoc]
  rw [tokens_append_left (by decide : "Math.trunc(".toList.getLast?.any isSeparate),
    tokens_append_right (by decide : ")".toList.head?.any isSeparate), hhead, hclose,
    tokens_name hraw, String.ofList_toList]
  rfl

theorem tokens_inRangeCode (index : String) (harray : Text.isIdentifier array.toList) :
    tokens (inRangeCode index array).toList = tokens index.toList ++
      (([.operator .atLeast, .number (.decimal false ⟨0, 0⟩), .operator .and] : List Token) ++
        (tokens index.toList ++
          ([.operator .less, .name array, .mark .dot, .name "length"] : List Token))) := by
  have hzero : tokens " >= 0 && ".toList =
      [.operator .atLeast, .number (.decimal false ⟨0, 0⟩), .operator .and] := by decide
  have hless : tokens " < ".toList = [.operator .less] := by decide
  have hlength : tokens ".length".toList = [.mark .dot, .name "length"] := by decide
  simp only [inRangeCode, String.toList_append, ToString.toString, List.append_assoc]
  rw [tokens_between (by decide : isClosed " >= 0 && ".toList),
    tokens_between (by decide : isClosed " < ".toList),
    tokens_append_right (by decide : ".length".toList.head?.any isSeparate), hzero, hless, hlength,
    tokens_name harray, String.ofList_toList]
  rfl

theorem tokens_dropCode (index : String) (harray : Text.isIdentifier array.toList) :
    tokens (dropCode index array).toList =
      ([.name array, .mark .dot, .name "length", .operator .same, .number (.decimal false ⟨0, 0⟩),
        .operator .or, .mark .not, .mark .open] : List Token) ++
        (tokens (inRangeCode index array).toList ++ ([.mark .close] : List Token)) := by
  have hempty : tokens ".length === 0 || !(".toList =
      [.mark .dot, .name "length", .operator .same, .number (.decimal false ⟨0, 0⟩), .operator .or,
        .mark .not, .mark .open] := by decide
  have hclose : tokens ")".toList = [.mark .close] := by decide
  simp only [dropCode, String.toList_append, ToString.toString, List.append_assoc]
  rw [tokens_between (by decide : isClosed ".length === 0 || !(".toList),
    tokens_append_right (by decide : ")".toList.head?.any isSeparate), hempty, hclose,
    tokens_name harray, String.ofList_toList]
  rfl

theorem tokens_readCode (hindex : Text.isIdentifier index.toList)
    (harray : Text.isIdentifier array.toList) : tokens (readCode index array).toList =
      tokens (inRangeCode index array).toList ++
        ([.mark .choice, .name array, .mark .openCell, .name index, .mark .closeCell,
          .mark .otherwise, .number (.decimal false ⟨0, 0⟩)] : List Token) := by
  have hchoice : tokens " ? ".toList = [.mark .choice] := by decide
  have hopen : tokens "[".toList = [.mark .openCell] := by decide
  have hclose : tokens "] : 0".toList = [.mark .closeCell, .mark .otherwise,
      .number (.decimal false ⟨0, 0⟩)] := by decide
  simp only [readCode, String.toList_append, ToString.toString, List.append_assoc]
  rw [tokens_between (by decide : isClosed " ? ".toList),
    tokens_between (by decide : isClosed "[".toList),
    tokens_append_right (by decide : "] : 0".toList.head?.any isSeparate), hchoice, hopen, hclose,
    tokens_name harray, tokens_name hindex, String.ofList_toList, String.ofList_toList]
  rfl

theorem read?_indexCode (hraw : Text.isIdentifier raw.toList) :
    read? (indexCode raw) = some (cutOf raw) := by
  rw [read?, tokens_indexCode hraw]
  rfl

theorem read?_inRangeCode_cut (hraw : Text.isIdentifier raw.toList)
    (harray : Text.isIdentifier array.toList) :
    read? (inRangeCode (indexCode raw) array) = some (inRange (cutOf raw) array) := by
  rw [read?, tokens_inRangeCode _ harray, tokens_indexCode hraw]
  rfl

theorem read?_inRangeCode (hindex : Text.isIdentifier index.toList)
    (harray : Text.isIdentifier array.toList) :
    read? (inRangeCode index array) = some (inRange (.name index) array) := by
  rw [read?, tokens_inRangeCode _ harray, tokens_name hindex, String.ofList_toList]
  rfl

theorem read?_dropCode (hindex : Text.isIdentifier index.toList)
    (harray : Text.isIdentifier array.toList) : read? (dropCode index array) =
      some (.operation .or (.operation .same (lengthOf array) zero)
        (.not (inRange (.name index) array))) := by
  rw [read?, tokens_dropCode _ harray, tokens_inRangeCode _ harray, tokens_name hindex,
    String.ofList_toList]
  rfl

theorem read?_readCode (hindex : Text.isIdentifier index.toList)
    (harray : Text.isIdentifier array.toList) : read? (readCode index array) =
      some (.choice (inRange (.name index) array) (.cell (.name array) (.name index)) zero) := by
  rw [read?, tokens_readCode hindex harray, tokens_inRangeCode _ harray, tokens_name hindex,
    String.ofList_toList]
  rfl

end Reading

section Values

variable {scope : Scope} {index : Expression} {array : String} {cells : Cells} {x y : Float}

/-- Whether the guard holds of a float. -/
def guards (cells : Cells) (y : Float) : Bool :=
  decide (0 ≤ y) && decide (y < cells.length)

@[simp] theorem value_zero (scope : Scope) : zero.value? scope = some (.number 0) :=
  congrArg (some ∘ Value.number) toFloat_zero

theorem value_lengthOf (harray : scope array = some (.array cells)) :
    (lengthOf array).value? scope = some (.number cells.length) := by
  simp [lengthOf, Expression.value?, harray, Value.member?]

theorem value_cutOf {raw : String} (hlibrary : scope "Math" = some .library)
    (hraw : scope raw = some (.number x)) : (cutOf raw).value? scope = some (.number (cut x)) := by
  simp [cutOf, Expression.value?, hlibrary, hraw, Value.member?, Value.call?]

theorem value_inRange (hindex : index.value? scope = some (.number y))
    (harray : scope array = some (.array cells)) :
    (inRange index array).value? scope = some (.truth (guards cells y)) := by
  by_cases hlow : 0 ≤ y <;>
    simp [inRange, value_lengthOf harray, Expression.value?, Value.truth?, hindex, value_zero,
      guards, hlow]

/-- The guard holds of the whole numbers of cells. -/
theorem guards_iff : guards cells (cut x) = true ↔
    ∃ i : ℕ, whole? (cut x) = some (i : ℤ) ∧ i < cells.values.size := by
  rw [guards, Bool.and_eq_true, decide_eq_true_iff, decide_eq_true_iff]
  cases hview : view x with
  | nan =>
    have hcut : cut x = x := cut_of_not_finite (by simp [hview])
    simp [hcut, le_iff_place, place, whole?, hview]
  | infinite negative =>
    have hcut : cut x = x := cut_of_not_finite (by simp [hview])
    have hplace : place x = some (if negative then ⊥ else ⊤) := by rw [place, hview]
    have hnone : whole? x = none := by rw [whole?, hview]
    rw [hcut, le_iff_place, lt_iff_place, hplace, hnone, place_of_whole? whole?_zero,
      place_of_whole? cells.whole?_length]
    cases negative <;> simp [Line.ofRat]
  | finite negative m q =>
    have hcut := whole?_cut hview
    rw [le_iff_of_whole? whole?_zero hcut, lt_iff_of_whole? hcut cells.whole?_length, hcut]
    constructor
    · rintro ⟨hlow, hhigh⟩
      exact ⟨(signed negative (wholePart m q)).toNat, by rw [Int.toNat_of_nonneg hlow], by omega⟩
    · rintro ⟨i, hi, hlt⟩
      rw [Option.some.inj hi]
      omega

/-- Where the guard does not hold, or there are no cells, a write is dropped. -/
theorem evaluate?_dropCode {index : String} (hname : Text.isIdentifier index.toList)
    (hidentifier : Text.isIdentifier array.toList) (hindex : scope index = some (.number y))
    (harray : scope array = some (.array cells)) : evaluate? scope (dropCode index array) =
      some (.truth (cells.length == 0 || !guards cells y)) := by
  have hguard : (inRange (.name index) array).value? scope = _ := value_inRange hindex harray
  rw [evaluate?, read?_dropCode hname hidentifier, Option.bind_eq_bind, Option.bind_some]
  cases hempty : cells.length == 0 <;>
    simp [Expression.value?, value_lengthOf harray, Value.truth?, hguard, hempty]

theorem evaluate?_readCode {index : String} (hname : Text.isIdentifier index.toList)
    (hidentifier : Text.isIdentifier array.toList) (hindex : scope index = some (.number y))
    (harray : scope array = some (.array cells)) : evaluate? scope (readCode index array) =
      if guards cells y then (cells.cell? y).map .number
      else some (.number 0) := by
  have hguard : (inRange (.name index) array).value? scope = _ := value_inRange hindex harray
  rw [evaluate?, read?_readCode hname hidentifier, Option.bind_eq_bind, Option.bind_some]
  cases hholds : guards cells y <;>
    simp [Expression.value?, hguard, hholds, Value.truth?, hindex, harray, Value.cell?]

end Values

end Table

namespace TableCursor

variable {b : TableCursor} {tables : Tables} {x : Float} {values : Array Float} {i size : ℕ}

/-- For numbers, the host looks at the cell with the number that the program comes to. -/
theorem slot?_setIndex (hx : view x ≠ .nan) (hsize : size < 2 ^ 53) :
    (b.setIndex x).slot? size = some i ↔ whole? (cut x) = some (i : ℤ) ∧ i < size := by
  rw [slot?_eq_some_iff, setIndex, and_congr_left_iff]
  intro hi
  cases hview : view x with
  | nan => exact absurd hview hx
  | infinite negative =>
    have hcut : cut x = x := cut_of_not_finite (by simp [hview])
    rw [hcut, truncated, whole?, hview]
    cases negative <;> simp [int64Min, int64Max]
    omega
  | finite negative m q =>
    have htruncated : truncated x = clampInt64 (signed negative (wholePart m q)) := by
      rw [truncated, hview]
    rw [whole?_cut hview, htruncated, Option.some_inj, clampInt64, int64Min, int64Max]
    dsimp only
    omega

theorem slot?_setIndex_nan (hx : view x = .nan) :
    (b.setIndex x).slot? size = if size = 0 then none else some 0 := by
  have hindex : (b.setIndex x).index = 0 := by rw [setIndex, truncated, hx]
  rw [slot?, hindex]
  split <;> split <;> first | rfl | omega

theorem written_iff (hvalues : (tables.get? b.arrayName).getD #[] = values) (v : Float) :
    (b.write tables v).1 = .written ↔ ∃ i, b.slot? values.size = some i := by
  rw [(writes_write b tables v).written_iff]
  cases hget : tables.get? b.arrayName with
  | none =>
    obtain rfl : #[] = values := by rwa [hget] at hvalues
    simp [slot?_eq_some_iff]
  | some array =>
    obtain rfl : array = values := by rwa [hget] at hvalues
    simp only [Option.some.injEq, exists_eq_left', slot?_eq_some_iff]
    constructor
    · intro h
      exact ⟨b.index.toNat, by omega⟩
    · rintro ⟨i, h⟩
      omega

theorem read_eq (hvalues : (tables.get? b.arrayName).getD #[] = values) :
    b.read tables = ((b.slot? values.size).bind (values[·]?)).getD 0 := by
  rw [read]
  cases hget : tables.get? b.arrayName with
  | none =>
    obtain rfl : #[] = values := by rwa [hget] at hvalues
    simp [slot?]
  | some array =>
    obtain rfl : array = values := by rwa [hget] at hvalues
    rfl

end TableCursor

namespace Table

/-- The receiver for values returns at once where the condition holds, and otherwise writes. -/
def WritesUnless (names : Names) (condition index array : String) : Prop :=
  ∃ lines others, Node.writeReceivers names = .ok ((0, .receiver (
    "if (msg_isMatching(m, [MSG_FLOAT_TOKEN])) \x7b" ::
    s!"    if ({condition}) \x7b" ::
    "        return" ::
    "    \x7d" ::
    s!"    {array}[{index}] = msg_readFloatToken(m, 0)" ::
    "    return" :: lines)) :: others)

/-- The receiver of indices cuts the index and sends the value of the text. -/
def Sends (names : Names) (text : String) : Prop :=
  ∃ lines, Node.readReceiver names = .ok (.receiver (
    "if (msg_isMatching(m, [MSG_FLOAT_TOKEN])) \x7b" ::
    ("    const index = " ++ indexCode "msg_readFloatToken(m, 0)") ::
    s!"    {names.sender 0}(msg_floats([{text}]))" ::
    "    return" :: lines))

/-- The function for indices puts the value of the text into the variable. -/
def Keeps (names : Names) (index text : String) : Prop :=
  ∀ settings declared b code,
    Node.declarations settings names (.tableWrite declared b) = .ok code →
    ∃ base, code = some (.block [base,
      .function (some (names.own "setIndex")) ["index"] (.raw s!"{index} = {text}")])

section Emission

variable {names : Names} {index array : String}

theorem writesUnless_dropCode (harray : names.state "array" = .ok array)
    (hindex : names.state "index" = .ok index) :
    WritesUnless names (dropCode index array) index array := by
  have hline : s!"    if ({dropCode index array}) \x7b" =
      s!"    if ({array}.length === 0 || !({inRangeCode index array})) \x7b" := by
    rw [← String.toList_inj]
    simp [dropCode, ToString.toString]
  rw [WritesUnless, Node.writeReceivers, harray, hindex, hline]
  exact ⟨_, _, rfl⟩

theorem sends_readCode (harray : names.state "array" = .ok array) :
    Sends names (readCode "index" array) := by
  let inRange := inRangeCode "index" array
  let text := readCode "index" array
  have hline : s!"    {names.sender 0}(msg_floats([{inRange} ? {array}[index] : 0]))" =
      s!"    {names.sender 0}(msg_floats([{text}]))" := by
    rw [← String.toList_inj]
    simp [text, inRange, readCode, ToString.toString]
  rw [Sends, Node.readReceiver, harray, ← hline]
  exact ⟨_, rfl⟩

theorem keeps_indexCode (hindex : names.state "index" = .ok index) :
    Keeps names index (indexCode "index") := by
  intro settings declared b code hcode
  rw [Node.declarations] at hcode
  cases hbase : Table.declarations settings names with
  | error fault => rw [hbase] at hcode; cases hcode
  | ok base =>
    rw [hbase, hindex] at hcode
    exact ⟨base, (Except.ok.inj hcode).symm⟩

end Emission

section Agreement

variable {raw index array : String} {scope : Scope} {x : Float} {cells : Cells}
  {b : TableCursor} {tables : Tables}

theorem evaluate?_indexCode (hraw : Text.isIdentifier raw.toList)
    (hlibrary : scope "Math" = some .library) (hx : scope raw = some (.number x)) :
    evaluate? scope (indexCode raw) = some (.number (cut x)) := by
  rw [evaluate?, read?_indexCode hraw]
  exact value_cutOf hlibrary hx

theorem guards_of_nan (hx : view x = .nan) : guards cells (cut x) = false := by
  rw [← Bool.not_eq_true, guards_iff, cut_of_not_finite (by simp [hx]), whole?, hx]
  simp

/-- Where there are no cells, the guard does not hold of any index. -/
theorem empty_or_guards (cells : Cells) (x : Float) :
    (cells.length == 0 || !guards cells (cut x)) = !guards cells (cut x) := by
  cases hempty : cells.length == 0 with
  | false => rfl
  | true =>
    have hsize := (beq_iff_of_whole? cells.whole?_length whole?_zero).1 hempty
    have hnot : guards cells (cut x) = false := by
      rw [← Bool.not_eq_true, guards_iff]
      rintro ⟨i, -, hi⟩
      omega
    rw [hnot]
    rfl

/-- The host looks at a cell exactly if the guard holds, and it is the cell of the cut index. -/
theorem slot?_iff_guards (hx : view x ≠ .nan) (i : ℕ) :
    (b.setIndex x).slot? cells.values.size = some i ↔
      guards cells (cut x) = true ∧ whole? (cut x) = some (i : ℤ) := by
  rw [TableCursor.slot?_setIndex hx cells.size_lt, guards_iff]
  constructor
  · rintro ⟨hi, hlt⟩
    exact ⟨⟨i, hi, hlt⟩, hi⟩
  · rintro ⟨⟨j, hj, hlt⟩, hi⟩
    obtain rfl : i = j := by exact_mod_cast Option.some.inj (hi.symm.trans hj)
    exact ⟨hi, hlt⟩

theorem slot?_eq_none (hx : view x ≠ .nan) (hholds : guards cells (cut x) = false) :
    (b.setIndex x).slot? cells.values.size = none := by
  refine Option.eq_none_iff_forall_ne_some.2 fun i hi => ?_
  rw [slot?_iff_guards hx, hholds] at hi
  cases hi.1

theorem written_iff_guards (hx : view x ≠ .nan)
    (htables : (tables.get? b.arrayName).getD #[] = cells.values) (v : Float) :
    ((b.setIndex x).write tables v).1 = .written ↔ guards cells (cut x) = true := by
  rw [TableCursor.written_iff (b := b.setIndex x) htables]
  constructor
  · rintro ⟨i, hi⟩
    exact ((slot?_iff_guards hx i).1 hi).1
  · intro hholds
    obtain ⟨i, hi, -⟩ := guards_iff.1 hholds
    exact ⟨i, (slot?_iff_guards hx i).2 ⟨hholds, hi⟩⟩

theorem read_eq_zero (hx : view x ≠ .nan)
    (htables : (tables.get? b.arrayName).getD #[] = cells.values)
    (hholds : guards cells (cut x) = false) : (b.setIndex x).read tables = 0 := by
  rw [TableCursor.read_eq (b := b.setIndex x) htables, slot?_eq_none hx hholds]
  rfl

/-- What the program reads is what the host reads. -/
theorem choice_eq_read (hx : view x ≠ .nan)
    (htables : (tables.get? b.arrayName).getD #[] = cells.values) :
    (if guards cells (cut x) then (cells.cell? (cut x)).map Value.number
      else some (.number 0)) = some (.number ((b.setIndex x).read tables)) := by
  cases hholds : guards cells (cut x) with
  | false => rw [read_eq_zero hx htables hholds, if_neg Bool.false_ne_true]
  | true =>
    obtain ⟨i, hi, hlt⟩ := guards_iff.1 hholds
    have hslot := (slot?_iff_guards (b := b) hx i).2 ⟨hholds, hi⟩
    rw [if_pos rfl, Cells.cell?_of_whole? hi, TableCursor.read_eq (b := b.setIndex x) htables,
      hslot, Option.bind_some, Array.getElem?_eq_getElem hlt]
    rfl

/-- The guard of the emitted program and the host, for any index and any array. The program comes
to a truth value, and what is written and read goes by it. -/
theorem guard_agrees (hraw : Text.isIdentifier raw.toList) (hindex : Text.isIdentifier index.toList)
    (harray : Text.isIdentifier array.toList) (hlibrary : scope "Math" = some .library)
    (hx : scope raw = some (.number x)) (hcells : scope array = some (.array cells))
    (hcut : scope index = evaluate? scope (indexCode raw))
    (htables : (tables.get? b.arrayName).getD #[] = cells.values) :
    let host := b.setIndex x
    ∃ holds : Bool,
      evaluate? scope (inRangeCode (indexCode raw) array) = some (.truth holds) ∧
      evaluate? scope (inRangeCode index array) = some (.truth holds) ∧
      evaluate? scope (dropCode index array) = some (.truth !holds) ∧
      (view x ≠ .nan →
        (∀ i, host.slot? cells.values.size = some i ↔
          holds = true ∧ whole? (cut x) = some (i : ℤ)) ∧
        (∀ v, ((host.write tables v).1 = .written ↔ holds = true) ∧
          (holds = false → (host.write tables v).2 = tables)) ∧
        evaluate? scope (readCode index array) = some (.number (host.read tables)) ∧
        (holds = false → host.read tables = 0)) ∧
      (view x = .nan → holds = false ∧
        evaluate? scope (readCode index array) = some (.number 0) ∧
        host.slot? cells.values.size = if cells.values.size = 0 then none else some 0) ∧
      ∀ names, names.state "array" = .ok array → Sends names (readCode "index" array) ∧
        (names.state "index" = .ok index → Keeps names index (indexCode "index") ∧
          WritesUnless names (dropCode index array) index array) := by
  intro host
  have hy : scope index = some (.number (cut x)) :=
    hcut.trans (evaluate?_indexCode hraw hlibrary hx)
  have hvalue : (inRange (.name index) array).value? scope = _ := value_inRange hy hcells
  have hread := evaluate?_readCode hindex harray hy hcells
  refine ⟨guards cells (cut x), ?_, ?_, ?_, fun hnumber => ?_, fun hnan => ⟨?_, ?_, ?_⟩,
    fun names hnames => ⟨sends_readCode hnames, fun hname =>
      ⟨keeps_indexCode hname, writesUnless_dropCode hnames hname⟩⟩⟩
  · rw [evaluate?, read?_inRangeCode_cut hraw harray]
    exact value_inRange (value_cutOf hlibrary hx) hcells
  · rw [evaluate?, read?_inRangeCode hindex harray]
    exact hvalue
  · rw [evaluate?_dropCode hindex harray hy hcells, empty_or_guards]
  · refine ⟨slot?_iff_guards hnumber, fun v => ⟨written_iff_guards hnumber htables v, fun h => ?_⟩,
      hread.trans (choice_eq_read hnumber htables), read_eq_zero hnumber htables⟩
    refine (TableCursor.writes_write host tables v).eq_of_ne fun hwritten => ?_
    rw [(written_iff_guards hnumber htables v).1 hwritten] at h
    cases h
  · exact guards_of_nan hnan
  · rw [hread, guards_of_nan hnan]
    rfl
  · exact TableCursor.slot?_setIndex_nan hnan

/-- The scope of the receivers of a node with the id `pad`. -/
def padScope (x : Float) (cells : Cells) : Scope
  | "Math" => some .library
  | "index" => some (.number x)
  | "n_pad_index" => some (.number (cut x))
  | "n_pad_array" => some (.array cells)
  | _ => none

/-- The third of three cells, by an index that is no whole number. -/
theorem guard_agrees_pad :
    let scope := padScope 2.9 ⟨#[4, 5, 6], by decide⟩
    let host := (TableCursor.ofName "pad").setIndex 2.9
    evaluate? scope (inRangeCode (indexCode "index") "n_pad_array") = some (.truth true) ∧
      host.slot? 3 = some 2 ∧
      evaluate? scope (readCode "n_pad_index" "n_pad_array") =
        some (.number (host.read ⟨[("pad", #[4, 5, 6])]⟩)) := by
  intro scope host
  have hraw : Text.isIdentifier "index".toList := by decide
  have hcut : scope "n_pad_index" = evaluate? scope (indexCode "index") :=
    (evaluate?_indexCode hraw rfl rfl).symm
  have htables : ((⟨[("pad", #[4, 5, 6])]⟩ : Tables).get? (TableCursor.ofName "pad").arrayName).getD
      #[] = #[4, 5, 6] := rfl
  obtain ⟨holds, hguard, -, -, hnumber, -⟩ :=
    guard_agrees hraw (by decide : Text.isIdentifier "n_pad_index".toList)
      (by decide : Text.isIdentifier "n_pad_array".toList) (rfl : scope "Math" = some .library)
      rfl rfl hcut htables
  have hslot : host.slot? 3 = some 2 := by decide +kernel
  obtain ⟨hslots, -, hread, -⟩ := hnumber (by decide +kernel)
  obtain ⟨rfl, -⟩ := (hslots 2).1 hslot
  exact ⟨hguard, hslot, hread⟩

/-- The guard does not hold of an index that is no number, but the host writes to the first cell. -/
theorem guard_fails_nan :
    let scope := padScope (0 / 0) ⟨#[1, 2], by decide⟩
    let host := (TableCursor.ofName "pad").setIndex (0 / 0)
    evaluate? scope (inRangeCode (indexCode "index") "n_pad_array") = some (.truth false) ∧
      host.slot? 2 = some 0 ∧ (host.write ⟨[("pad", #[1, 2])]⟩ 7).1 = .written := by
  intro scope host
  have hguard : (inRange (cutOf "index") "n_pad_array").value? scope = _ :=
    value_inRange (value_cutOf rfl rfl) rfl
  refine ⟨?_, by decide +kernel, by decide +kernel⟩
  rw [evaluate?, read?_inRangeCode_cut (by decide) (by decide)]
  exact hguard.trans (congrArg (some ∘ Value.truth) (guards_of_nan view_notANumber))

end Agreement

end Table

end Patchbay
