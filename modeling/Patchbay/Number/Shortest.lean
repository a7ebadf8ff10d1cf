import Patchbay.Number.View

/-!
The shortest decimal of a float: the least number of significant digits with a decimal that rounds
to the float, and of the two neighbours on that grid the nearer one. All of it is found in whole
numbers. The main statement is that the shortest decimal rounds to the float.
-/
namespace Patchbay.Number

/-- Ten to the power `n`. -/
def tenTo (n : Nat) : Nat := Nat.pow 10 n

@[simp] theorem tenTo_zero : tenTo 0 = 1 := rfl

theorem tenTo_pos (n : Nat) : 0 < tenTo n := Nat.pow_pos (by omega)

/-- The decimal `units / 10 ^ places`. -/
structure Decimal where
  units : Nat
  places : Nat
  deriving DecidableEq, Repr

/-- `units * 10 ^ exponent`. -/
def Decimal.ofExponent (units : Nat) (exponent : Int) : Decimal :=
  ⟨units * tenTo exponent.toNat, (-exponent).toNat⟩

/-- The same decimal with as few places as it needs. -/
def Decimal.trim (units : Nat) : (places : Nat) → Decimal
  | 0 => ⟨units, 0⟩
  | places + 1 => if units % 10 = 0 then trim (units / 10) places else ⟨units, places + 1⟩

/-- The exact value `m * 2 ^ q`. -/
def Decimal.exact (m : Nat) (q : Int) : Decimal :=
  ⟨m <<< q.toNat * Nat.pow 5 (-q).toNat, (-q).toNat⟩

/-- The number of decimal digits of `n`. -/
def digitCount (n : Nat) : Nat := (Nat.toDigits 10 n).length

/-- A positive value `num / den`. -/
structure Ratio where
  num : Nat
  den : Nat

def Ratio.ofBinary (m : Nat) (q : Int) : Ratio := ⟨m <<< q.toNat, 1 <<< (-q).toNat⟩

/-- The exponent of the leading digit: the greatest `e` with `10 ^ e ≤ num / den`. -/
def Ratio.magnitude (r : Ratio) : Int :=
  if r.den ≤ r.num then digitCount (r.num / r.den) - 1
  else -(digitCount ((r.den + r.num - 1) / r.num - 1))

/-- The value in units of `10 ^ exponent`. -/
def Ratio.inUnitsOf (r : Ratio) (exponent : Int) : Ratio :=
  ⟨r.num * tenTo (-exponent).toNat, r.den * tenTo exponent.toNat⟩

/-- The whole numbers below and above, nearer first; of two equally near, the upper first. -/
def Ratio.neighbours (r : Ratio) : List Nat :=
  let below := r.num / r.den
  if 2 * (r.num % r.den) < r.den then [below, below + 1] else [below + 1, below]

/-- The nearest whole number; of two equally near, the even one. -/
def Ratio.round (r : Ratio) : Nat :=
  let below := r.num / r.den
  match compare (2 * (r.num % r.den)) r.den with
  | .lt => below
  | .gt => below + 1
  | .eq => below + below % 2

/-- The decimals next to the value on the grid of `digits` significant digits. -/
def candidates (r : Ratio) (digits : Nat) : List Decimal :=
  let exponent := r.magnitude + 1 - digits
  (r.inUnitsOf exponent).neighbours.map fun units =>
    let d := Decimal.ofExponent units exponent
    Decimal.trim d.units d.places

/-- The least exponent of a float. -/
def minExponent : Int := -1074

/-- The midpoint between `m * 2 ^ q` and the next float below, in quarters of `2 ^ q`. Below a power
of two the floats are twice as dense. -/
def lowerMidpoint (m : Nat) (q : Int) : Nat :=
  if m = 4_503_599_627_370_496 ∧ minExponent < q then 4 * m - 1 else 4 * m - 2

/-- The midpoint between `m * 2 ^ q` and the next float above, in quarters of `2 ^ q`. -/
def upperMidpoint (m : Nat) : Nat := 4 * m + 2

/-- The decimal lies between the midpoints around `m * 2 ^ q`. The midpoints themselves belong to
the float with the even mantissa. -/
def Decimal.RoundsTo (d : Decimal) (m : Nat) (q : Int) : Prop :=
  let value := d.units <<< (2 - q).toNat
  let scale := tenTo d.places <<< (q - 2).toNat
  if m % 2 = 0 then lowerMidpoint m q * scale ≤ value ∧ value ≤ upperMidpoint m * scale
  else lowerMidpoint m q * scale < value ∧ value < upperMidpoint m * scale

instance (d : Decimal) (m : Nat) (q : Int) : Decidable (d.RoundsTo m q) := by
  unfold Decimal.RoundsTo
  infer_instance

/-- The shortest decimal of the float `m * 2 ^ q`. Seventeen digits always suffice; the exact value
stands behind them. -/
def shortest (m : Nat) (q : Int) : Decimal :=
  ((List.range 17).findSome? fun k =>
    (candidates (.ofBinary m q) (k + 1)).find? (·.RoundsTo m q)).getD (.exact m q)

theorem Decimal.exact_value (m : Nat) (q : Int) :
    (exact m q).units <<< (2 - q).toNat =
      4 * m * (tenTo (exact m q).places <<< (q - 2).toNat) := by
  simp only [exact, tenTo, Nat.pow_eq, Nat.shiftLeft_eq]
  rcases Int.le_total q 0 with h | h
  · obtain ⟨k, rfl⟩ : ∃ k : Nat, q = -k := ⟨(-q).toNat, by omega⟩
    have h₁ : (-(k : Int)).toNat = 0 := by omega
    have h₂ : (- -(k : Int)).toNat = k := by omega
    have h₃ : (2 - -(k : Int)).toNat = k + 2 := by omega
    have h₄ : (-(k : Int) - 2).toNat = 0 := by omega
    rw [h₁, h₂, h₃, h₄, show 10 = 2 * 5 from rfl, Nat.mul_pow]
    grind
  · obtain ⟨k, rfl⟩ : ∃ k : Nat, q = k := ⟨q.toNat, by omega⟩
    have h₁ : (-(k : Int)).toNat = 0 := by omega
    rw [h₁, Int.toNat_natCast]
    match k with
    | 0 => simp; omega
    | 1 => simp; omega
    | k + 2 =>
      have h₂ : (2 - ((k + 2 : Nat) : Int)).toNat = 0 := by omega
      have h₃ : (((k + 2 : Nat) : Int) - 2).toNat = k := by omega
      rw [h₂, h₃]
      grind

theorem roundsTo_exact {m : Nat} {q : Int} (hm : 0 < m) : (Decimal.exact m q).RoundsTo m q := by
  have low : lowerMidpoint m q < 4 * m := by unfold lowerMidpoint; split <;> omega
  have high : 4 * m < upperMidpoint m := by unfold upperMidpoint; omega
  have scale : 0 < tenTo (Decimal.exact m q).places <<< (q - 2).toNat := by
    rw [Nat.shiftLeft_eq]
    exact Nat.mul_pos (tenTo_pos _) (Nat.pow_pos (by omega))
  have low' := Nat.mul_lt_mul_of_pos_right low scale
  have high' := Nat.mul_lt_mul_of_pos_right high scale
  unfold Decimal.RoundsTo
  simp only [Decimal.exact_value]
  split
  · exact ⟨Nat.le_of_lt low', Nat.le_of_lt high'⟩
  · exact ⟨low', high'⟩

theorem roundsTo_shortest {m : Nat} {q : Int} (hm : 0 < m) : (shortest m q).RoundsTo m q := by
  unfold shortest
  cases h : (List.range 17).findSome? fun k =>
      (candidates (.ofBinary m q) (k + 1)).find? (·.RoundsTo m q) with
  | none => exact roundsTo_exact hm
  | some d =>
    obtain ⟨k, _, hk⟩ := List.exists_of_findSome?_eq_some h
    simpa using List.find?_some hk

end Patchbay.Number
