import Patchbay.Number.View
import Patchbay.Toml.Value

/-!
Numbers: integers in four bases and floats, with underscores between digits.
-/
namespace Patchbay.Toml

/-- Whether underscores stand between digits only. -/
def isGrouped : List Char → Bool
  | [] => false
  | [c] => c ≠ '_'
  | c :: d :: rest => c ≠ '_' && isGrouped (if d = '_' then rest else d :: rest)
termination_by cs => cs.length
decreasing_by
  split <;> (simp only [List.length_cons]; omega)

/-- A run of digits without its underscores. -/
def digitRun (isDigit : Char → Bool) : Reader (List Char) := fun cs =>
  let run := cs.takeWhile fun c => isDigit c || c = '_'
  if isGrouped run then some (run.filter (· ≠ '_'), cs.drop run.length) else none

/-- A decimal run of digits that does not begin with a needless zero. -/
def wholeRun : Reader (List Char) := fun cs =>
  match digitRun Char.isDigit cs with
  | some ('0' :: _ :: _, _) => none
  | read => read

/-- The digits behind a point, if there is one. -/
def fractionRun : Reader (List Char)
  | '.' :: rest => digitRun Char.isDigit rest
  | cs => some ([], cs)

def sign : List Char → Bool × List Char
  | '-' :: rest => (true, rest)
  | '+' :: rest => (false, rest)
  | cs => (false, cs)

/-- The exponent, if there is one. -/
def exponentRun : Reader Int := fun cs =>
  match cs with
  | c :: rest =>
    if c = 'e' ∨ c = 'E' then
      let (negative, rest) := sign rest
      (digitRun Char.isDigit rest).map fun (ds, left) =>
        (if negative then -(valueOf 10 ds : Int) else valueOf 10 ds, left)
    else some (0, cs)
  | [] => some (0, cs)

/-- The float nearest to a decimal with an exponent. Zeros at the end of the fraction say
nothing. -/
def decimalFloat (whole fraction : List Char) (exponent : Int) : Float :=
  let fraction := (fraction.reverse.dropWhile (· = '0')).reverse
  let exponent := exponent - fraction.length
  Float.ofScientific (valueOf 10 (whole ++ fraction)) (exponent ≤ 0) exponent.natAbs

def signedFloat (negative : Bool) (x : Float) : Float := if negative then -x else x

/-- A float that is written as a decimal must not be too large, unless it is negative. -/
def decimalValue (negative : Bool) (x : Float) : Option Value :=
  if !negative && x.isInf then none else some (.float (signedFloat negative x))

def int64 (n : Int) : Option Value :=
  if Number.int64Min ≤ n ∧ n ≤ Number.int64Max then some (.integer n) else none

/-- An integer or a float in decimal notation, behind its sign. -/
def decimal (negative : Bool) : Reader Value := fun cs => do
  let (whole, rest) ← wholeRun cs
  let (fraction, rest') ← fractionRun rest
  let (exponent, left) ← exponentRun rest'
  let value ←
    if left.length = rest.length then
      int64 (if negative then -(valueOf 10 whole : Int) else valueOf 10 whole)
    else decimalValue negative (decimalFloat whole fraction exponent)
  return (value, left)

def radix (base : Nat) (isDigit : Char → Bool) : Reader Value := fun cs => do
  let (ds, left) ← digitRun isDigit cs
  return (← int64 (valueOf base ds), left)

/-- Infinity or no number, behind the sign. -/
def special? (negative : Bool) : Reader Value
  | 'i' :: 'n' :: 'f' :: rest => some (.float (signedFloat negative (1 / 0)), rest)
  | 'n' :: 'a' :: 'n' :: rest => some (.float (0 / 0), rest)
  | _ => none

def number? : Reader Value := fun cs =>
  match cs with
  | '0' :: 'x' :: rest => radix 16 isHexDigit rest
  | '0' :: 'o' :: rest => radix 8 (fun c => '0' ≤ c && c ≤ '7') rest
  | '0' :: 'b' :: rest => radix 2 (fun c => c = '0' || c = '1') rest
  | _ =>
    let (negative, rest) := sign cs
    (special? negative rest).or (decimal negative rest)

end Patchbay.Toml
