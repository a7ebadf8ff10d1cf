import Patchbay.Keyed
import Patchbay.Toml.Reader

/-!
Documents: what the statements of a document build up. A table is either opened by a header, once,
or grows out of dotted keys; a header may open a table that so far was only passed through on the
way to another.
-/
namespace Patchbay.Toml

inductive Item where
  | value (v : Value)
  /-- A table is implicit until a header opens it, and dotted if dotted keys made it. -/
  | table (isImplicit isDotted : Bool) (entries : List (String × Item))
  /-- The tables of one repeated header, the last one first. -/
  | tables (elements : List (List (String × Item)))

/-- The items of a table in the order in which their keys came up. -/
abbrev Entries := List (String × Item)

/-- Changes the table at the end of a path; `change` is told whether dotted keys made it. Tables
that are missing on the way come into being. A path of dotted keys must not enter a table that has
a header. -/
def within (byDots : Bool) (change : Bool → Entries → Option Entries) :
    (path : List String) → (isDotted : Bool) → Entries → Option Entries
  | [], isDotted, entries => change isDotted entries
  | key :: path, _, entries =>
    match entries.lookup key with
    | none => do
      let inner ← within byDots change path byDots []
      return Keyed.put key (.table true byDots inner) entries
    | some (.value _) => none
    | some (.table isImplicit isDotted inner) =>
      if byDots && !isImplicit then none
      else do
        let inner ← within byDots change path isDotted inner
        return Keyed.put key (.table isImplicit isDotted inner) entries
    | some (.tables []) => none
    | some (.tables (last :: earlier)) => do
      let last ← within byDots change path false last
      return Keyed.put key (.tables (last :: earlier)) entries

/-- Gives a new key its value. -/
def assign (path : List String) (v : Value) (entries : Entries) : Option Entries :=
  match path.getLast? with
  | none => none
  | some key =>
    within true (fun isDotted inner =>
      if isDotted = path.dropLast.isEmpty ∨ (inner.lookup key).isSome then none
      else some (Keyed.put key (.value v) inner)) path.dropLast false entries

def assignAll (assignments : List (List String × Value)) (entries : Entries) : Option Entries :=
  assignments.foldlM (fun es (path, v) => assign path v es) entries

/-- A value that nests at most `depth` arrays and tables. -/
def valueUpTo : (depth : Nat) → Reader Value
  | depth, cs =>
    match cs with
    | '[' :: rest =>
      match depth with
      | 0 => none
      | depth + 1 => (arrayItems (valueUpTo depth) cs.length rest).map fun left => (.other, left)
    | '\x7b' :: rest =>
      match depth with
      | 0 => none
      | depth + 1 =>
        match skipSpaces rest with
        | '\x7d' :: left => some (.other, left)
        | _ => do
          let (assignments, left) ← inlineItems (valueUpTo depth) cs.length rest
          let _ ← assignAll assignments []
          return (.other, left)
    | 't' :: 'r' :: 'u' :: 'e' :: left => some (.other, left)
    | 'f' :: 'a' :: 'l' :: 's' :: 'e' :: left => some (.other, left)
    | c :: _ =>
      if c = '"' ∨ c = '\'' then
        (text? cs).map fun (content, left) => (.text (String.ofList content), left)
      else if beginsMoment cs then (moment cs).map fun left => (.other, left)
      else number? cs
    | [] => none

def value : Reader Value := valueUpTo (maxDepth - 1)

/-- A header with the assignments that follow it. -/
structure Section where
  path : List String
  isRepeated : Bool
  assignments : List (List String × Value)

/-- The path of a header, behind its opening bracket or brackets. -/
def headerPath (closing : List Char) (cs : List Char) : Option (List String × List Char) := do
  let (path, rest) ← key cs
  if closing.isPrefixOf rest then
    return (path, ← lineEnd? (rest.drop closing.length))
  else none

/-- The assignments up to the first header, and the sections behind them. -/
structure Layout where
  assignments : List (List String × Value)
  sections : List Section

def Layout.assign (path : List String) (v : Value) (l : Layout) : Layout :=
  { l with assignments := (path, v) :: l.assignments }

def Layout.header (path : List String) (isRepeated : Bool) (l : Layout) : Layout :=
  ⟨[], ⟨path, isRepeated, l.assignments⟩ :: l.sections⟩

/-- The lines of a document; `fuel` bounds their number. -/
def layout : (fuel : Nat) → List Char → Option Layout
  | 0, _ => none
  | fuel + 1, cs =>
    match skipSpaces cs with
    | [] => some ⟨[], []⟩
    | '[' :: '[' :: rest => do
      let (path, left) ← headerPath [']', ']'] rest
      return (← layout fuel left).header path true
    | '[' :: rest => do
      let (path, left) ← headerPath [']'] rest
      return (← layout fuel left).header path false
    | c :: rest =>
      if c = '#' ∨ c = '\n' ∨ c = '\r' then do
        layout fuel (← lineEnd? (c :: rest))
      else do
        let ((path, v), left) ← assignment value (c :: rest)
        return (← layout fuel (← lineEnd? left)).assign path v

/-- Adds what a header opens. -/
def addSection (entries : Entries) (s : Section) : Option Entries :=
  match s.path.getLast? with
  | none => none
  | some key =>
    within false (fun _ inner =>
      match inner.lookup key, s.isRepeated with
      | none, false => do
        let opened ← assignAll s.assignments []
        return Keyed.put key (.table false false opened) inner
      | some (.table true false passed), false => do
        let opened ← assignAll s.assignments passed
        return Keyed.put key (.table false false opened) inner
      | none, true => do
        let opened ← assignAll s.assignments []
        return Keyed.put key (.tables [opened]) inner
      | some (.tables earlier), true => do
        let opened ← assignAll s.assignments []
        return Keyed.put key (.tables (opened :: earlier)) inner
      | _, _ => none) s.path.dropLast false entries

def skipMark : List Char → List Char
  | '\uFEFF' :: rest => rest
  | cs => cs

/-- The table that a document describes. -/
def read (text : List Char) : Option Entries := do
  let text := skipMark text
  let l ← layout (text.length + 1) text
  let entries ← assignAll l.assignments []
  l.sections.foldlM addSection entries

end Patchbay.Toml
