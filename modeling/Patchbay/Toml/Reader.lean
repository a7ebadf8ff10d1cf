import Patchbay.Text.Blank
import Patchbay.Toml.Moment
import Patchbay.Toml.Number
import Patchbay.Toml.Text

/-!
Keys, values and statements. Values nest only to a fixed depth, and a dotted key has a bounded
number of parts.
-/
namespace Patchbay.Toml

def maxDepth : Nat := 80

def isBareChar (c : Char) : Bool := Text.isWordChar c || c = '_' || c = '-'

def simpleKey : Reader String
  | '"' :: rest => (basicBody rest).map fun (key, left) => (String.ofList key, left)
  | '\'' :: rest => (literalBody rest).map fun (key, left) => (String.ofList key, left)
  | cs =>
    let key := cs.takeWhile isBareChar
    if key = [] then none else some (String.ofList key, cs.drop key.length)

/-- The parts of a key with dots between them; `fuel` bounds their number. -/
def keyParts : (fuel : Nat) → Reader (List String)
  | 0, _ => none
  | fuel + 1, cs => do
    let (key, rest) ← simpleKey (skipSpaces cs)
    match skipSpaces rest with
    | '.' :: more =>
      let (keys, left) ← keyParts fuel more
      return (key :: keys, left)
    | left => return ([key], left)

def key : Reader (List String) := keyParts (maxDepth - 1)

/-- Space, new lines and comments. Every comment ends with its line. -/
def skipBlank : (fuel : Nat) → List Char → List Char
  | 0, cs => cs
  | fuel + 1, cs =>
    let rest := skipSpaces cs
    match newline? (skipComment rest) with
    | some more => skipBlank fuel more
    | none => rest

/-- The items of an array, behind the opening bracket or a comma. -/
def arrayItems (value : Reader Value) : (fuel : Nat) → List Char → Option (List Char)
  | 0, _ => none
  | fuel + 1, cs =>
    match skipBlank cs.length cs with
    | ']' :: left => some left
    | cs => do
      let (_, rest) ← value cs
      match skipBlank rest.length rest with
      | ',' :: more => arrayItems value fuel more
      | ']' :: left => some left
      | _ => none

/-- One key with its value. -/
def assignment (value : Reader Value) : Reader (List String × Value) := fun cs => do
  let (path, rest) ← key cs
  let (v, left) ← value (skipSpaces (← expect '=' rest))
  return ((path, v), left)

/-- The assignments in an inline table, of which there is at least one. -/
def inlineItems (value : Reader Value) : (fuel : Nat) → Reader (List (List String × Value))
  | 0, _ => none
  | fuel + 1, cs => do
    let (first, rest) ← assignment value cs
    match skipSpaces rest with
    | ',' :: more =>
      let (others, left) ← inlineItems value fuel more
      return (first :: others, left)
    | '}' :: left => return ([first], left)
    | _ => none

end Patchbay.Toml
