import Patchbay.Number.Shortest

/-!
The two ways a float is written: plainly, with the fewest digits that read back and never an
exponent, and scientifically, with a fixed number of digits.
-/
namespace Patchbay.Number

def digits (n : Nat) : List Char := Nat.toDigits 10 n

/-- Zeros in front up to the given width. -/
def padded (width : Nat) (ds : List Char) : List Char :=
  List.replicate (width - ds.length) '0' ++ ds

/-- Whole digits, and behind a point one digit for each place. -/
def Decimal.positional (d : Decimal) : List Char :=
  if d.places = 0 then digits d.units
  else digits (d.units / tenTo d.places) ++ '.' :: padded d.places (digits (d.units % tenTo d.places))

def signText (negative : Bool) : List Char := if negative then ['-'] else []

def plainChars (x : Float) : List Char :=
  match view x with
  | .nan => ['N', 'a', 'N']
  | .infinite negative => signText negative ++ ['i', 'n', 'f']
  | .finite negative m q =>
    signText negative ++ (if m = 0 then ['0'] else (shortest m q).positional)

/-- Shortest digits that read back, in positional notation, the sign of zero kept. -/
def plain (x : Float) : String := String.ofList (plainChars x)

/-- The digits of a value and the exponent of the first of them, rounded to `places + 1` digits. -/
def rounded (r : Ratio) (places : Nat) : Nat × Int :=
  let n := (r.inUnitsOf (r.magnitude - places)).round
  if n = tenTo (places + 1) then (tenTo places, r.magnitude + 1) else (n, r.magnitude)

def scientificDigits (places : Nat) (n : Nat) (exponent : Int) : String :=
  s!"{n / tenTo places}." ++ String.ofList (padded places (digits (n % tenTo places))) ++ s!"e{exponent}"

/-- One digit, a point, `places` digits and an exponent. -/
def scientific (places : Nat) (x : Float) : String :=
  match view x with
  | .nan => "NaN"
  | .infinite negative => String.ofList (signText negative) ++ "inf"
  | .finite negative m q =>
    let (n, exponent) := if m = 0 then (0, 0) else rounded (.ofBinary m q) places
    String.ofList (signText negative) ++ scientificDigits places n exponent

end Patchbay.Number
