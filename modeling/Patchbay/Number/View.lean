/-!
A float taken apart: a sign with a mantissa and a binary exponent, an infinity, or no number
at all. Everything exact that is said about floats here is said of these whole numbers.
-/
namespace Patchbay.Number

inductive View where
  | nan
  | infinite (negative : Bool)
  /-- The value is `± mantissa * 2 ^ exponent`. -/
  | finite (negative : Bool) (mantissa : Nat) (exponent : Int)
  deriving DecidableEq, Repr

def isNegative : Float.Model.UnpackedFloat.Sign → Bool
  | .negative => true
  | .positive => false

def view (x : Float) : View :=
  match x.toModel.unpack with
  | .notANumber => .nan
  | .infinity s => .infinite (isNegative s)
  | .zero s => .finite (isNegative s) 0 0
  | .finite s m q _ => .finite (isNegative s) m q

def signed (negative : Bool) (n : Nat) : Int :=
  if negative then -(n : Int) else n

/-- The whole part of `m * 2 ^ q`. -/
def wholePart (m : Nat) (q : Int) : Nat :=
  m <<< q.toNat >>> (-q).toNat

/-- Whether `m * 2 ^ q` has no fractional part. -/
def isWhole (m : Nat) (q : Int) : Bool :=
  m >>> (-q).toNat <<< (-q).toNat = m

/-- The integer that a float is, if it is one. -/
def whole? (x : Float) : Option Int :=
  match view x with
  | .finite negative m q => if isWhole m q then some (signed negative (wholePart m q)) else none
  | _ => none

def int64Min : Int := -9_223_372_036_854_775_808
def int64Max : Int := 9_223_372_036_854_775_807

def clampInt64 (n : Int) : Int := max int64Min (min int64Max n)

/-- The float cut toward zero, as a signed 64-bit integer: values out of range take the nearest
end of it and a float that is no number counts as zero. -/
def truncated (x : Float) : Int :=
  match view x with
  | .nan => 0
  | .infinite negative => if negative then int64Min else int64Max
  | .finite negative m q => clampInt64 (signed negative (wholePart m q))

/-- What is left of a float when its whole part is taken off. -/
def fraction (x : Float) : Float :=
  match view x with
  | .finite negative m q => x - Float.ofInt (signed negative (wholePart m q))
  | _ => 0.0 / 0.0

theorem clampInt64_of_mem {n : Int} (lo : int64Min ≤ n) (hi : n ≤ int64Max) :
    clampInt64 n = n := by
  unfold clampInt64
  omega

end Patchbay.Number
