import Patchbay.Toml.Value

/-!
Moments: dates, times of day, and both together with or without an offset from universal time. No
setting is one, so a reader only finds where a moment ends.
-/
namespace Patchbay.Toml

/-- A number of exactly `width` digits between the bounds. -/
def fixedDigits (width low high : Nat) (cs : List Char) : Option (Nat × List Char) :=
  let ds := cs.take width
  let n := valueOf 10 ds
  if ds.length = width ∧ ds.all Char.isDigit ∧ low ≤ n ∧ n ≤ high then some (n, cs.drop width)
  else none

def expect (c : Char) : List Char → Option (List Char)
  | d :: rest => if d = c then some rest else none
  | [] => none

def isLeapYear (year : Nat) : Bool := year % 4 = 0 && (year % 100 ≠ 0 || year % 400 = 0)

def daysInMonth (year month : Nat) : Nat :=
  if month = 2 then (if isLeapYear year then 29 else 28)
  else if month = 4 ∨ month = 6 ∨ month = 9 ∨ month = 11 then 30
  else 31

def date (cs : List Char) : Option (List Char) := do
  let (year, cs) ← fixedDigits 4 0 9999 cs
  let (month, cs) ← fixedDigits 2 1 12 (← expect '-' cs)
  let (_, cs) ← fixedDigits 2 1 (daysInMonth year month) (← expect '-' cs)
  return cs

/-- A point and at least one digit, if there is a point with a digit behind it. -/
def secondFraction : List Char → List Char
  | '.' :: d :: rest => if d.isDigit then rest.dropWhile Char.isDigit else '.' :: d :: rest
  | cs => cs

def timeOfDay (cs : List Char) : Option (List Char) := do
  let (_, cs) ← fixedDigits 2 0 23 cs
  let (_, cs) ← fixedDigits 2 0 59 (← expect ':' cs)
  let (_, cs) ← fixedDigits 2 0 60 (← expect ':' cs)
  return secondFraction cs

def offset : List Char → Option (List Char)
  | c :: rest =>
    if c = 'Z' ∨ c = 'z' then some rest
    else if c = '+' ∨ c = '-' then do
      let (_, cs) ← fixedDigits 2 0 23 rest
      let (_, cs) ← fixedDigits 2 0 59 (← expect ':' cs)
      return cs
    else some (c :: rest)
  | [] => some []

/-- A date, and a time of day behind it if there is one. -/
def dateTime (cs : List Char) : Option (List Char) := do
  let rest ← date cs
  match rest with
  | c :: time@(d :: _) =>
    if c = 'T' ∨ c = 't' ∨ (c = ' ' ∧ d.isDigit) then offset (← timeOfDay time) else return rest
  | _ => return rest

/-- Whether a date or a time of day begins here. -/
def beginsMoment : List Char → Bool
  | a :: b :: c :: rest =>
    a.isDigit && b.isDigit &&
      (c = ':' || (c.isDigit && match rest with
        | d :: e :: _ => d.isDigit && e = '-'
        | _ => false))
  | _ => false

def moment (cs : List Char) : Option (List Char) :=
  match cs with
  | _ :: _ :: ':' :: _ => timeOfDay cs
  | _ => dateTime cs

end Patchbay.Toml
