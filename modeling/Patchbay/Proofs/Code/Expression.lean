import Mathlib
import Patchbay.Proofs.Number.Comparison

/-!
Expressions of the emitted language, as far as conditions on numbers and cells of arrays need them.
A text is split into tokens, the tokens are read by precedence, and what is read has a value in a
scope. There are no conversions between kinds of values: where the language would make one, the
expression has no value here.
-/
namespace Patchbay

open Number

namespace Script

inductive Operator where
  | or
  | and
  | same
  | less
  | atLeast
  deriving DecidableEq, Repr

/-- Operators of greater precedence bind their operands first. -/
def Operator.precedence : Operator → ℕ
  | or => 3
  | and => 4
  | same => 8
  | less | atLeast => 9

inductive Punctuator where
  | dot
  | open
  | close
  | openCell
  | closeCell
  | not
  | choice
  | otherwise
  deriving DecidableEq, Repr

inductive Token where
  | name (s : String)
  | number (n : Numeral)
  | mark (m : Punctuator)
  | operator (op : Operator)
  /-- Nothing that an expression has in it here. -/
  | other (piece : List Char)
  deriving DecidableEq

inductive Expression where
  | name (s : String)
  | number (n : Numeral)
  | member (e : Expression) (s : String)
  | cell (e index : Expression)
  | call (f argument : Expression)
  | not (e : Expression)
  | operation (op : Operator) (left right : Expression)
  | choice (condition yes no : Expression)

section Reading

/-- The characters that names and numbers are made of. -/
def isNameChar (c : Char) : Bool := Text.isWordChar c || c = '_' || c = '$'

/-- The characters that operators are made of. -/
def isOperatorChar (c : Char) : Bool := c ∈ ['=', '<', '>', '!', '&', '|']

/-- Whether two characters next to each other belong to one token. -/
def joins (a b : Char) : Bool :=
  (isNameChar a && isNameChar b) || (isOperatorChar a && isOperatorChar b)

/-- The signs of the language, with what they stand for. -/
def signs : List (String × Token) :=
  [(".", .mark .dot), ("(", .mark .open), (")", .mark .close), ("[", .mark .openCell),
    ("]", .mark .closeCell), ("!", .mark .not), ("?", .mark .choice), (":", .mark .otherwise),
    ("||", .operator .or), ("&&", .operator .and), ("===", .operator .same),
    ("<", .operator .less), (">=", .operator .atLeast)]

/-- The token of a piece of text; blanks are none. -/
def token? (piece : List Char) : Option Token :=
  if piece = [' '] then none
  else if Text.isIdentifier piece then some (.name (.ofList piece))
  else match signs.lookup (.ofList piece) with
    | some token => some token
    | none => match Numeral.ofDigits? false piece with
      | some n => some (.number n)
      | none => some (.other piece)

def tokens (text : List Char) : List Token := (text.splitBy joins).filterMap token?

mutual

/-- A choice, or an operation of any precedence; `fuel` bounds how deep it goes. -/
def choice : (fuel : ℕ) → List Token → Option (Expression × List Token)
  | 0, _ => none
  | fuel + 1, ts => do
    let (condition, ts) ← operation fuel 0 ts
    match ts with
    | .mark .choice :: ts =>
      let (yes, ts) ← choice fuel ts
      match ts with
      | .mark .otherwise :: ts =>
        let (no, ts) ← choice fuel ts
        return (.choice condition yes no, ts)
      | _ => none
    | _ => return (condition, ts)

/-- Operations of at least the given precedence. -/
def operation : (fuel : ℕ) → (least : ℕ) → List Token → Option (Expression × List Token)
  | 0, _, _ => none
  | fuel + 1, least, ts => do
    let (left, ts) ← operand fuel ts
    operators fuel least left ts

/-- Goes on behind a left operand. -/
def operators : (fuel : ℕ) → (least : ℕ) → Expression → List Token →
    Option (Expression × List Token)
  | 0, _, _, _ => none
  | fuel + 1, least, left, .operator op :: ts =>
    if least ≤ op.precedence then do
      let (right, ts) ← operation fuel (op.precedence + 1) ts
      operators fuel least (.operation op left right) ts
    else return (left, .operator op :: ts)
  | _ + 1, _, left, ts => return (left, ts)

def operand : (fuel : ℕ) → List Token → Option (Expression × List Token)
  | 0, _ => none
  | fuel + 1, .mark .not :: ts => do
    let (e, ts) ← operand fuel ts
    return (.not e, ts)
  | fuel + 1, .mark .open :: ts => do
    let (e, ts) ← choice fuel ts
    match ts with
    | .mark .close :: ts => suffixes fuel e ts
    | _ => none
  | fuel + 1, .name s :: ts => suffixes fuel (.name s) ts
  | _ + 1, .number n :: ts => return (.number n, ts)
  | _ + 1, _ => none

/-- Goes on behind something that can have members or cells or be called. -/
def suffixes : (fuel : ℕ) → Expression → List Token → Option (Expression × List Token)
  | 0, _, _ => none
  | fuel + 1, e, .mark .dot :: .name s :: ts => suffixes fuel (.member e s) ts
  | fuel + 1, e, .mark .openCell :: ts => do
    let (index, ts) ← choice fuel ts
    match ts with
    | .mark .closeCell :: ts => suffixes fuel (.cell e index) ts
    | _ => none
  | fuel + 1, e, .mark .open :: ts => do
    let (argument, ts) ← choice fuel ts
    match ts with
    | .mark .close :: ts => suffixes fuel (.call e argument) ts
    | _ => none
  | _ + 1, e, ts => return (e, ts)

end

/-- Reads a text that is one expression. -/
def read? (text : String) : Option Expression :=
  let ts := tokens text.toList
  match choice (4 * ts.length) ts with
  | some (e, []) => some e
  | _ => none

end Reading

section Tokens

variable {name front rest text : List Char}

/-- The characters that never are a part of a longer token. -/
def isSeparate (c : Char) : Bool := !isNameChar c && !isOperatorChar c

theorem joins_left {a b : Char} (h : isSeparate a) : joins a b = false := by
  simp only [isSeparate, Bool.and_eq_true, Bool.not_eq_true'] at h
  simp [joins, h.1, h.2]

theorem joins_right {a b : Char} (h : isSeparate b) : joins a b = false := by
  simp only [isSeparate, Bool.and_eq_true, Bool.not_eq_true'] at h
  simp [joins, h.1, h.2]

theorem tokens_append (h : ∀ a ∈ front.getLast?, ∀ b ∈ rest.head?, joins a b = false) :
    tokens (front ++ rest) = tokens front ++ tokens rest := by
  rw [tokens, List.splitBy_append h, List.filterMap_append, tokens, tokens]

theorem tokens_append_left (h : front.getLast?.any isSeparate) :
    tokens (front ++ rest) = tokens front ++ tokens rest := by
  refine tokens_append fun a ha b _ => joins_left ?_
  rwa [Option.mem_def.1 ha] at h

theorem tokens_append_right (h : rest.head?.any isSeparate) :
    tokens (front ++ rest) = tokens front ++ tokens rest := by
  refine tokens_append fun a _ b hb => joins_right ?_
  rwa [Option.mem_def.1 hb] at h

/-- A text that begins and ends with such characters, so that it can stand between any others. -/
def isClosed (text : List Char) : Bool :=
  text.head?.any isSeparate && text.getLast?.any isSeparate

theorem tokens_between (h : isClosed text) :
    tokens (front ++ (text ++ rest)) = tokens front ++ (tokens text ++ tokens rest) := by
  obtain ⟨hhead, hlast⟩ := Bool.and_eq_true_iff.1 h
  rw [← tokens_append_left hlast]
  refine tokens_append_right ?_
  rw [List.head?_append]
  cases htext : text.head? with
  | none => simp [htext] at hhead
  | some c => rwa [htext] at hhead

theorem isNameChar_of_isIdentifier (h : Text.isIdentifier name) : ∀ c ∈ name, isNameChar c := by
  intro c hc
  rcases Text.isWordChar_or_of_isIdentifier h c hc with h | h <;> simp [isNameChar, h]

/-- A name is one token. -/
theorem tokens_name (h : Text.isIdentifier name) : tokens name = [.name (.ofList name)] := by
  have hne : name ≠ [] := by
    rintro rfl
    cases h
  have hchars := isNameChar_of_isIdentifier h
  have hblank : name ≠ [' '] := by
    rintro rfl
    cases h
  have hchain : name.IsChain fun a b => joins a b := by
    refine List.Pairwise.isChain (List.pairwise_of_forall_mem_list fun a ha b hb => ?_)
    simp [joins, hchars a ha, hchars b hb]
  rw [tokens, List.splitBy_of_isChain hne hchain, List.filterMap_cons, token?, if_neg hblank,
    if_pos h]
  rfl

end Tokens

section Values

/-- An array of numbers. The language has none whose length would be rounded. -/
structure Cells where
  values : Array Float
  size_lt : values.size < 2 ^ 53

namespace Cells

def length (a : Cells) : Float := Numeral.toFloat (.decimal false ⟨a.values.size, 0⟩)

theorem whole?_length (a : Cells) : whole? a.length = some (a.values.size : ℤ) :=
  Numeral.whole?_toFloat a.size_lt

/-- The cell with the given number, if it is that of a cell. -/
def cell? (a : Cells) (index : Float) : Option Float := do
  let i ← whole? index
  if 0 ≤ i then a.values[i.toNat]? else none

theorem cell?_of_whole? {a : Cells} {index : Float} {i : ℕ} (h : whole? index = some (i : ℤ)) :
    a.cell? index = a.values[i]? := by
  simp [cell?, h]

end Cells

inductive Value where
  | number (x : Float)
  | truth (holds : Bool)
  | array (a : Cells)
  | function (f : Float → Float)
  /-- The object with the functions on numbers. -/
  | library

/-- The values of the names that are in scope. -/
abbrev Scope := String → Option Value

namespace Value

def member? : Value → String → Option Value
  | array a, "length" => some (.number a.length)
  | library, "trunc" => some (.function cut)
  | _, _ => none

def cell? : Value → Value → Option Value
  | array a, number index => (a.cell? index).map number
  | _, _ => none

def call? : Value → Value → Option Value
  | function f, number x => some (.number (f x))
  | _, _ => none

def truth? : Value → Option Bool
  | truth holds => some holds
  | _ => none

/-- An operation on two numbers. -/
def compare? (op : Operator) : Value → Value → Option Value
  | number x, number y => match op with
    | .same => some (.truth (x == y))
    | .less => some (.truth (x < y))
    | .atLeast => some (.truth (y ≤ x))
    | .or | .and => none
  | _, _ => none

@[simp] theorem compare?_same (x y : Float) :
    compare? .same (number x) (number y) = some (.truth (x == y)) := rfl

@[simp] theorem compare?_less (x y : Float) :
    compare? .less (number x) (number y) = some (.truth (x < y)) := rfl

@[simp] theorem compare?_atLeast (x y : Float) :
    compare? .atLeast (number x) (number y) = some (.truth (y ≤ x)) := rfl

end Value

/-- The value of an expression. What need not be looked at is not looked at: the right operand of
a disjunction or a conjunction that its left one decides, and the side of a choice not taken. -/
def Expression.value? (scope : Scope) : Expression → Option Value
  | name s => scope s
  | number n => some (.number n.toFloat)
  | member e s => do (← e.value? scope).member? s
  | cell e index => do (← e.value? scope).cell? (← index.value? scope)
  | call f argument => do (← f.value? scope).call? (← argument.value? scope)
  | not e => do return .truth (!(← (← e.value? scope).truth?))
  | operation .or left right => do
    if ← (← left.value? scope).truth? then return .truth true else right.value? scope
  | operation .and left right => do
    if ← (← left.value? scope).truth? then right.value? scope else return .truth false
  | operation op left right => do
    Value.compare? op (← left.value? scope) (← right.value? scope)
  | choice condition yes no => do
    if ← (← condition.value? scope).truth? then yes.value? scope else no.value? scope

/-- The value of a text that is one expression. -/
def evaluate? (scope : Scope) (text : String) : Option Value := do (← read? text).value? scope

end Values

end Script

end Patchbay
