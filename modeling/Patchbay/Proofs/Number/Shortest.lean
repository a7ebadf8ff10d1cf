import Mathlib
import Patchbay.Proofs.Number.Plain

/-!
The shortest decimal of a float is the shortest. If a decimal with some number of digits rounds to
the float, then so does a neighbour of the float on the grid of that many digits, since what rounds
to the float is an interval; and seventeen digits always are enough.
-/
namespace Patchbay.Number

/-- At most `k` digits, with zeros behind them or a point among them. -/
def HasDigits (v : ℚ) (k : ℕ) : Prop := ∃ (n : ℕ) (e : ℤ), n < 10 ^ k ∧ v = n * 10 ^ e

theorem HasDigits.mono {v : ℚ} {k k' : ℕ} (h : HasDigits v k) (hk : k ≤ k') : HasDigits v k' := by
  obtain ⟨n, e, hn, hv⟩ := h
  exact ⟨n, e, hn.trans_le (Nat.pow_le_pow_right (by decide) hk), hv⟩

theorem cast_tenTo (n : ℕ) : (tenTo n : ℚ) = 10 ^ n := by simp [tenTo]

theorem ten_zpow_pos (e : ℤ) : (0 : ℚ) < 10 ^ e := zpow_pos (by norm_num) e

theorem ten_zpow_add (e e' : ℤ) : (10 : ℚ) ^ (e + e') = 10 ^ e * 10 ^ e' :=
  zpow_add₀ (by norm_num) e e'

/-- A power with any exponent as a quotient of two powers. -/
theorem ten_zpow_eq_div (e : ℤ) : (10 : ℚ) ^ e = 10 ^ e.toNat / 10 ^ (-e).toNat := by
  rw [← zpow_natCast, ← zpow_natCast, ← zpow_sub₀ (by norm_num)]
  congr 1
  omega

section DigitCount

variable {n : ℕ}

theorem lt_pow_digitCount (n : ℕ) : n < 10 ^ digitCount n := by
  have hpos : 0 < digitCount n := List.length_pos_iff.2 Nat.toDigits_ne_nil
  exact (Nat.length_toDigits_le_iff (by decide) hpos).1 le_rfl

theorem pow_digitCount_le (hn : 0 < n) : 10 ^ (digitCount n - 1) ≤ n := by
  by_contra hlt
  rcases Nat.eq_zero_or_pos (digitCount n - 1) with hzero | hpos
  · rw [hzero, pow_zero] at hlt
    omega
  · have hle : digitCount n ≤ digitCount n - 1 :=
      (Nat.length_toDigits_le_iff (by decide) hpos).2 (not_le.1 hlt)
    omega

theorem digitCount_pos (n : ℕ) : 0 < digitCount n := List.length_pos_iff.2 Nat.toDigits_ne_nil

end DigitCount

namespace Ratio

variable {r : Ratio} {e : ℤ}

/-- The exact value. -/
def value (r : Ratio) : ℚ := r.num / r.den

structure Positive (r : Ratio) : Prop where
  num : 0 < r.num
  den : 0 < r.den

theorem positive_ofBinary {m : ℕ} (hm : 0 < m) (q : ℤ) : (ofBinary m q).Positive := by
  constructor <;> simp only [ofBinary, Nat.shiftLeft_eq] <;> positivity

theorem value_ofBinary (m : ℕ) (q : ℤ) : (ofBinary m q).value = m * 2 ^ q := by
  have hpow : (2 : ℚ) ^ q = 2 ^ q.toNat / 2 ^ (-q).toNat := by
    rw [← zpow_natCast, ← zpow_natCast, ← zpow_sub₀ two_ne_zero]
    congr 1
    omega
  simp only [value, ofBinary, Nat.shiftLeft_eq]
  push_cast
  rw [hpow, one_mul, mul_div_assoc]

theorem value_inUnitsOf (r : Ratio) (e : ℤ) : (r.inUnitsOf e).value = r.value * 10 ^ (-e) := by
  simp only [value, inUnitsOf]
  push_cast
  rw [cast_tenTo, cast_tenTo, ten_zpow_eq_div, neg_neg, div_mul_div_comm]

theorem positive_inUnitsOf (h : r.Positive) (e : ℤ) : (r.inUnitsOf e).Positive :=
  ⟨Nat.mul_pos h.num (tenTo_pos _), Nat.mul_pos h.den (tenTo_pos _)⟩

theorem magnitude_of_le (hden : 0 < r.den) (hle : r.den ≤ r.num) :
    10 ^ r.magnitude ≤ r.value ∧ r.value < 10 ^ (r.magnitude + 1) := by
  set whole := r.num / r.den with hwhole
  have hpos : 0 < whole := Nat.div_pos hle hden
  have hcount := digitCount_pos whole
  have hlow : 10 ^ (digitCount whole - 1) * r.den ≤ r.num :=
    (Nat.mul_le_mul_right _ (pow_digitCount_le hpos)).trans (Nat.div_mul_le_self _ _)
  have hhigh : r.num < 10 ^ digitCount whole * r.den := by
    rw [← Nat.div_lt_iff_lt_mul hden]
    exact lt_pow_digitCount whole
  have hden' : (0 : ℚ) < r.den := by exact_mod_cast hden
  have hmagnitude : r.magnitude = (digitCount whole - 1 : ℕ) := by
    rw [magnitude, if_pos hle, ← hwhole]
    omega
  have hnext : r.magnitude + 1 = digitCount whole := by omega
  rw [value, le_div_iff₀ hden', div_lt_iff₀ hden', hnext, hmagnitude, zpow_natCast, zpow_natCast]
  exact ⟨by exact_mod_cast hlow, by exact_mod_cast hhigh⟩

theorem magnitude_of_lt (hnum : 0 < r.num) (hlt : r.num < r.den) :
    10 ^ r.magnitude ≤ r.value ∧ r.value < 10 ^ (r.magnitude + 1) := by
  -- The inverse lies above `whole` and not above the next number.
  set whole := (r.den - 1) / r.num with hwhole
  have hpos : 0 < whole := Nat.div_pos (by omega) hnum
  have hcount := digitCount_pos whole
  have hlow : r.den ≤ r.num * 10 ^ digitCount whole := by
    have habove : r.den - 1 < r.num * (whole + 1) := Nat.lt_mul_div_succ (r.den - 1) hnum
    have hpow : r.num * (whole + 1) ≤ r.num * 10 ^ digitCount whole :=
      Nat.mul_le_mul_left _ (lt_pow_digitCount whole)
    omega
  have hhigh : r.num * 10 ^ (digitCount whole - 1) < r.den := by
    have hbelow : r.num * whole ≤ r.den - 1 := Nat.mul_div_le (r.den - 1) r.num
    have hpow : r.num * 10 ^ (digitCount whole - 1) ≤ r.num * whole :=
      Nat.mul_le_mul_left _ (pow_digitCount_le hpos)
    omega
  have hden' : (0 : ℚ) < r.den := by exact_mod_cast (show 0 < r.den by omega)
  have hmagnitude : r.magnitude = -(digitCount whole : ℤ) := by
    have hupper : (r.den + r.num - 1) / r.num = whole + 1 := by
      rw [show r.den + r.num - 1 = r.den - 1 + r.num by omega, Nat.add_div_right _ hnum]
    rw [magnitude, if_neg (by omega), hupper, Nat.add_sub_cancel]
  have hnext : r.magnitude + 1 = -((digitCount whole - 1 : ℕ) : ℤ) := by omega
  rw [value, le_div_iff₀ hden', div_lt_iff₀ hden', hnext, hmagnitude, zpow_neg, zpow_neg,
    zpow_natCast, zpow_natCast, inv_mul_le_iff₀ (by positivity), lt_inv_mul_iff₀ (by positivity),
    mul_comm, mul_comm _ (r.num : ℚ)]
  exact ⟨by exact_mod_cast hlow, by exact_mod_cast hhigh⟩

/-- The exponent of the leading digit. -/
theorem magnitude_spec (h : r.Positive) :
    10 ^ r.magnitude ≤ r.value ∧ r.value < 10 ^ (r.magnitude + 1) := by
  rcases Nat.lt_or_ge r.num r.den with hlt | hle
  · exact magnitude_of_lt h.num hlt
  · exact magnitude_of_le h.den hle

theorem value_eq (h : 0 < r.den) :
    r.value = (r.num / r.den : ℕ) + (r.num % r.den : ℕ) / r.den := by
  have hden : (r.den : ℚ) ≠ 0 := by exact_mod_cast h.ne'
  have hsplit : (r.num : ℚ) = r.den * (r.num / r.den : ℕ) + (r.num % r.den : ℕ) := by
    exact_mod_cast (Nat.div_add_mod r.num r.den).symm
  rw [value, hsplit]
  field_simp

theorem below_le (h : 0 < r.den) : ((r.num / r.den : ℕ) : ℚ) ≤ r.value := by
  rw [value_eq h]
  have : (0 : ℚ) ≤ (r.num % r.den : ℕ) / r.den := by positivity
  linarith

theorem lt_above (h : 0 < r.den) : r.value < (r.num / r.den : ℕ) + 1 := by
  have hden : (0 : ℚ) < r.den := by exact_mod_cast h
  have hlt : ((r.num % r.den : ℕ) : ℚ) < r.den := by exact_mod_cast Nat.mod_lt _ h
  rw [value_eq h]
  have : ((r.num % r.den : ℕ) : ℚ) / r.den < 1 := (div_lt_one hden).2 hlt
  linarith

/-- The two neighbours, the nearer one in front. -/
theorem exists_neighbours (h : 0 < r.den) : ∃ near far : ℕ, r.neighbours = [near, far] ∧
    |(near : ℚ) - r.value| ≤ |(far : ℚ) - r.value| ∧ |(near : ℚ) - r.value| ≤ 1 / 2 := by
  have hden : (0 : ℚ) < r.den := by exact_mod_cast h
  have hbelow := below_le h
  have habove := lt_above h
  have hvalue := value_eq h
  unfold neighbours
  dsimp only
  split
  · next hlt =>
    have hhalf : ((r.num % r.den : ℕ) : ℚ) / r.den < 1 / 2 := by
      rw [div_lt_div_iff₀ hden two_pos]
      exact_mod_cast (by omega : r.num % r.den * 2 < 1 * r.den)
    refine ⟨_, _, rfl, ?_⟩
    push_cast
    rw [abs_sub_comm, abs_of_nonneg (by linarith), abs_of_nonneg (by linarith)]
    constructor <;> linarith
  · next hge =>
    have hhalf : 1 / 2 ≤ ((r.num % r.den : ℕ) : ℚ) / r.den := by
      rw [div_le_div_iff₀ two_pos hden]
      exact_mod_cast (by omega : 1 * r.den ≤ r.num % r.den * 2)
    refine ⟨_, _, rfl, ?_⟩
    push_cast
    rw [abs_of_nonneg (by linarith), abs_sub_comm, abs_of_nonneg (by linarith)]
    constructor <;> linarith

theorem mem_neighbours {n : ℕ} :
    n ∈ r.neighbours ↔ n = r.num / r.den ∨ n = r.num / r.den + 1 := by
  unfold neighbours
  dsimp only
  split <;> simp [or_comm]

end Ratio

namespace Decimal

theorem value_ofExponent (units : ℕ) (e : ℤ) : (ofExponent units e).value = units * 10 ^ e := by
  simp only [value, ofExponent]
  push_cast
  rw [cast_tenTo, ten_zpow_eq_div, mul_div_assoc]

theorem value_trim (units places : ℕ) : (trim units places).value = units / 10 ^ places := by
  induction places generalizing units with
  | zero => simp [trim, value]
  | succ places ih =>
    rw [trim]
    split
    · next h =>
      have hten : (units : ℚ) = 10 * (units / 10 : ℕ) := by
        exact_mod_cast (Nat.mul_div_cancel' (Nat.dvd_of_mod_eq_zero h)).symm
      rw [ih, hten, pow_succ]
      field_simp
    · rfl

/-- No zero is left behind the point. -/
theorem units_trim_of_places (units places : ℕ) (h : (trim units places).places ≠ 0) :
    (trim units places).units % 10 ≠ 0 := by
  induction places generalizing units with
  | zero => exact absurd rfl h
  | succ places ih =>
    rw [trim] at h ⊢
    split
    · next hzero =>
      rw [if_pos hzero] at h
      exact ih _ h
    · assumption

/-- So many units of `10 ^ e`, with as few places as needed. -/
def onGrid (e : ℤ) (units : ℕ) : Decimal :=
  trim (ofExponent units e).units (ofExponent units e).places

theorem value_onGrid (e : ℤ) (units : ℕ) : (onGrid e units).value = units * 10 ^ e := by
  rw [onGrid, value_trim, ← value_ofExponent]
  rfl

/-- Whole units of a power of ten need no places. -/
theorem places_onGrid {e : ℤ} (he : 0 ≤ e) (units : ℕ) : (onGrid e units).places = 0 := by
  have hnone : (-e).toNat = 0 := by omega
  simp only [onGrid, ofExponent, hnone, trim]

end Decimal

section Grid

variable {r : Ratio} {k n : ℕ} {w : ℚ} {d : Decimal}

/-- The exponent of the last of `k` digits. -/
def gridExponent (r : Ratio) (k : ℕ) : ℤ := r.magnitude + 1 - k

/-- The lower neighbour of a value, in units of the last of `k` digits. -/
def lower (r : Ratio) (k : ℕ) : ℕ :=
  (r.inUnitsOf (gridExponent r k)).num / (r.inUnitsOf (gridExponent r k)).den

theorem candidates_eq (r : Ratio) (k : ℕ) : candidates r k =
    (r.inUnitsOf (gridExponent r k)).neighbours.map (Decimal.onGrid (gridExponent r k)) := rfl

theorem mem_candidates : d ∈ candidates r k ↔
    d = Decimal.onGrid (gridExponent r k) (lower r k) ∨
      d = Decimal.onGrid (gridExponent r k) (lower r k + 1) := by
  simp only [candidates_eq, List.mem_map, Ratio.mem_neighbours, or_and_right, exists_or,
    exists_eq_left, lower, eq_comm]

theorem value_eq_units (r : Ratio) (k : ℕ) :
    r.value = (r.inUnitsOf (gridExponent r k)).value * 10 ^ gridExponent r k := by
  rw [Ratio.value_inUnitsOf, mul_assoc, ← ten_zpow_add, neg_add_cancel, zpow_zero, mul_one]

/-- A number on the grid is not above the value exactly if it is not above the lower neighbour. -/
theorem onGrid_le_iff (hr : r.Positive) :
    (n : ℚ) * 10 ^ gridExponent r k ≤ r.value ↔ n ≤ lower r k := by
  have hden := (Ratio.positive_inUnitsOf hr (gridExponent r k)).den
  rw [value_eq_units r k, mul_le_mul_iff_left₀ (ten_zpow_pos _)]
  constructor
  · intro hn
    have : (n : ℚ) < lower r k + 1 := hn.trans_lt (Ratio.lt_above hden)
    exact Nat.lt_succ_iff.1 (by exact_mod_cast this)
  · intro hn
    exact (Nat.cast_le.2 hn).trans (Ratio.below_le hden)

theorem ten_zpow_magnitude (r : Ratio) (hk : 0 < k) :
    (10 : ℚ) ^ r.magnitude = (10 ^ (k - 1) : ℕ) * 10 ^ gridExponent r k := by
  push_cast
  rw [← zpow_natCast, ← ten_zpow_add]
  congr 1
  unfold gridExponent
  omega

/-- The lower neighbour has `k` digits and no fewer. -/
theorem lower_mem (hr : r.Positive) (hk : 0 < k) :
    10 ^ (k - 1) ≤ lower r k ∧ lower r k < 10 ^ k := by
  obtain ⟨hlow, hhigh⟩ := Ratio.magnitude_spec hr
  rw [ten_zpow_magnitude r hk, onGrid_le_iff hr] at hlow
  have hnext : (10 : ℚ) ^ (r.magnitude + 1) = (10 ^ k : ℕ) * 10 ^ gridExponent r k := by
    push_cast
    rw [← zpow_natCast, ← ten_zpow_add]
    congr 1
    unfold gridExponent
    omega
  rw [hnext, ← not_le, onGrid_le_iff hr, not_le] at hhigh
  exact ⟨hlow, hhigh⟩

theorem hasDigits_of_le (hk : 0 < k) (hn : n ≤ 10 ^ k) (e : ℤ) : HasDigits (n * 10 ^ e) k := by
  rcases hn.lt_or_eq with hlt | rfl
  · exact ⟨n, e, hlt, rfl⟩
  · refine ⟨1, k + e, Nat.one_lt_pow (by omega) (by decide), ?_⟩
    rw [ten_zpow_add, zpow_natCast]
    push_cast
    ring

theorem hasDigits_of_mem_candidates (hr : r.Positive) (hk : 0 < k) (hd : d ∈ candidates r k) :
    HasDigits d.value k := by
  have hlt := (lower_mem hr hk).2
  rcases mem_candidates.1 hd with rfl | rfl <;> rw [Decimal.value_onGrid]
  · exact hasDigits_of_le hk hlt.le _
  · exact hasDigits_of_le hk hlt _

/-- A number of `k` digits that is not below the leading digit of a value stands on the grid of the
value. -/
theorem HasDigits.lt_or_onGrid (h : HasDigits w k) :
    w < 10 ^ r.magnitude ∨ ∃ n : ℕ, w = n * 10 ^ gridExponent r k := by
  obtain ⟨n, e, hn, rfl⟩ := h
  rcases le_or_gt (gridExponent r k) e with he | he
  · right
    obtain ⟨j, hj⟩ := Int.eq_ofNat_of_zero_le (sub_nonneg.2 he)
    refine ⟨n * 10 ^ j, ?_⟩
    rw [show e = j + gridExponent r k by omega, ten_zpow_add, zpow_natCast]
    push_cast
    ring
  · left
    have hn' : (n : ℚ) < 10 ^ (k : ℤ) := by exact_mod_cast hn
    calc (n : ℚ) * 10 ^ e < 10 ^ (k : ℤ) * 10 ^ e := mul_lt_mul_of_pos_right hn' (ten_zpow_pos e)
      _ = 10 ^ ((k : ℤ) + e) := (ten_zpow_add _ _).symm
      _ ≤ 10 ^ r.magnitude := by
        apply zpow_le_zpow_right₀ (by norm_num)
        unfold gridExponent at he
        omega

/-- Between a number of `k` digits and the value stands a neighbour on the grid of `k` digits. -/
theorem HasDigits.exists_candidate (h : HasDigits w k) (hr : r.Positive) (hk : 0 < k) :
    ∃ d ∈ candidates r k, d.value ∈ Set.uIcc w r.value := by
  have hscale := ten_zpow_pos (gridExponent r k)
  rcases le_or_gt w r.value with hw | hw
  · refine ⟨_, mem_candidates.2 (.inl rfl), ?_⟩
    rw [Decimal.value_onGrid, Set.uIcc_of_le hw]
    refine ⟨?_, (onGrid_le_iff hr).2 le_rfl⟩
    rcases h.lt_or_onGrid (r := r) with hsmall | ⟨n, rfl⟩
    · rw [ten_zpow_magnitude r hk] at hsmall
      have hle : ((10 ^ (k - 1) : ℕ) : ℚ) ≤ lower r k := by exact_mod_cast (lower_mem hr hk).1
      exact hsmall.le.trans (mul_le_mul_of_nonneg_right hle hscale.le)
    · have hle : (n : ℚ) ≤ lower r k := by exact_mod_cast (onGrid_le_iff hr).1 hw
      exact mul_le_mul_of_nonneg_right hle hscale.le
  · refine ⟨_, mem_candidates.2 (.inr rfl), ?_⟩
    rw [Decimal.value_onGrid, Set.uIcc_of_ge hw.le]
    rcases h.lt_or_onGrid (r := r) with hsmall | ⟨n, rfl⟩
    · exact absurd (hsmall.trans_le (Ratio.magnitude_spec hr).1) (not_lt.2 hw.le)
    · have hle : lower r k + 1 ≤ n := not_le.1 fun hn => not_lt.2 ((onGrid_le_iff hr).2 hn) hw
      have hle' : ((lower r k + 1 : ℕ) : ℚ) ≤ n := by exact_mod_cast hle
      refine ⟨?_, mul_le_mul_of_nonneg_right hle' hscale.le⟩
      exact (not_le.1 fun hn => absurd ((onGrid_le_iff hr).1 hn) (by omega)).le

/-- The nearer of the two neighbours is tried first. -/
theorem exists_candidates (hr : r.Positive) (k : ℕ) :
    ∃ near far, candidates r k = [near, far] ∧
      |near.value - r.value| ≤ |far.value - r.value| ∧
      |near.value - r.value| ≤ 10 ^ gridExponent r k / 2 := by
  have hscale := ten_zpow_pos (gridExponent r k)
  obtain ⟨near, far, hpair, hcloser, hhalf⟩ :=
    Ratio.exists_neighbours (Ratio.positive_inUnitsOf hr (gridExponent r k)).den
  have hdistance (n : ℕ) : |(Decimal.onGrid (gridExponent r k) n).value - r.value| =
      |(n : ℚ) - (r.inUnitsOf (gridExponent r k)).value| * 10 ^ gridExponent r k := by
    rw [Decimal.value_onGrid, value_eq_units r k, ← sub_mul, abs_mul, abs_of_pos hscale]
  refine ⟨_, _, by rw [candidates_eq, hpair]; rfl, ?_⟩
  rw [hdistance, hdistance]
  refine ⟨mul_le_mul_of_nonneg_right hcloser hscale.le, ?_⟩
  calc _ ≤ 1 / 2 * 10 ^ gridExponent r k := mul_le_mul_of_nonneg_right hhalf hscale.le
    _ = 10 ^ gridExponent r k / 2 := by ring

end Grid

section Rounding

variable {d d' : Decimal} {m k : ℕ} {q : ℤ} {x y z : ℚ}

/-- What rounds to a float is an interval. -/
theorem Between.of_mem_uIcc (hx : Between x m q) (hy : Between y m q) (hz : z ∈ Set.uIcc x y) :
    Between z m q := by
  unfold Between at *
  split at hx
  · next heven =>
    rw [if_pos heven] at hy ⊢
    rcases Set.mem_uIcc.1 hz with h | h <;> constructor <;> linarith [hx.1, hx.2, hy.1, hy.2]
  · next hodd =>
    rw [if_neg hodd] at hy ⊢
    rcases Set.mem_uIcc.1 hz with h | h <;> constructor <;> linarith [hx.1, hx.2, hy.1, hy.2]

/-- A decimal between one that rounds to the float and the float itself rounds to the float. -/
theorem Decimal.RoundsTo.of_mem_uIcc (h : d.RoundsTo m q) (hm : 0 < m)
    (hd' : d'.value ∈ Set.uIcc d.value ((Ratio.ofBinary m q).value)) : d'.RoundsTo m q := by
  have hscale : (0 : ℚ) < 2 ^ (-q) := by positivity
  rw [Decimal.roundsTo_iff_between] at h ⊢
  apply h.of_mem_uIcc (Between.self hm q)
  rw [← cancel_exponent m q, ← Ratio.value_ofBinary]
  rcases Set.mem_uIcc.1 hd' with h | h
  · exact Set.mem_uIcc_of_le (mul_le_mul_of_nonneg_right h.1 hscale.le)
      (mul_le_mul_of_nonneg_right h.2 hscale.le)
  · exact Set.mem_uIcc_of_ge (mul_le_mul_of_nonneg_right h.1 hscale.le)
      (mul_le_mul_of_nonneg_right h.2 hscale.le)

/-- Seventeen digits are enough: they leave less than half of the way to the next float. -/
theorem roundsTo_of_close (hm : Canonical m q)
    (h : |d.value - (Ratio.ofBinary m q).value| ≤ (Ratio.ofBinary m q).value / (2 * 10 ^ 16)) :
    d.RoundsTo m q := by
  have hscale : (0 : ℚ) < 2 ^ (-q) := by positivity
  have hlt : (m : ℚ) + 1 ≤ 2 ^ 53 := by exact_mod_cast hm.lt
  rw [Ratio.value_ofBinary] at h
  have hclose : |d.value * 2 ^ (-q) - m| ≤ m / (2 * 10 ^ 16) := by
    rw [← cancel_exponent m q, ← sub_mul, abs_mul, abs_of_pos hscale, mul_div_right_comm]
    exact mul_le_mul_of_nonneg_right h hscale.le
  obtain ⟨hbelow, habove⟩ := abs_le.1 hclose
  have hlower : (lowerMidpoint m q : ℚ) < 4 * (d.value * 2 ^ (-q)) := by
    unfold lowerMidpoint
    have hpos := hm.pos
    split
    · next hpower =>
      rw [Nat.cast_sub (by omega)]
      have : (m : ℚ) = 4_503_599_627_370_496 := by exact_mod_cast hpower.1
      push_cast
      rw [this] at hbelow ⊢
      norm_num at hbelow ⊢
      linarith
    · rw [Nat.cast_sub (by omega)]
      push_cast
      norm_num at hbelow hlt ⊢
      linarith
  have hupper : 4 * (d.value * 2 ^ (-q)) < upperMidpoint m := by
    rw [upperMidpoint_eq]
    norm_num at habove hlt ⊢
    linarith
  rw [Decimal.roundsTo_iff_between]
  unfold Between
  split
  · exact ⟨hlower.le, hupper.le⟩
  · exact ⟨hlower, hupper⟩

theorem exists_candidate_seventeen (hm : Canonical m q) :
    ∃ d ∈ candidates (.ofBinary m q) 17, d.RoundsTo m q := by
  have hr := Ratio.positive_ofBinary hm.pos q
  obtain ⟨near, far, hpair, -, hhalf⟩ := exists_candidates hr 17
  refine ⟨near, by simp [hpair], roundsTo_of_close hm (hhalf.trans ?_)⟩
  have hmagnitude := (Ratio.magnitude_spec hr).1
  rw [ten_zpow_magnitude _ (show 0 < 17 by decide)] at hmagnitude
  rw [div_le_div_iff₀ two_pos (by positivity)]
  push_cast at hmagnitude
  norm_num at hmagnitude ⊢
  linarith

end Rounding

/-- The decimal rounds to the float. None that does has fewer digits, and of those that have no more
digits none is nearer to the float. -/
structure Decimal.IsShortest (d : Decimal) (m : ℕ) (q : ℤ) : Prop where
  rounds : d.RoundsTo m q
  fewest : ∀ d' : Decimal, d'.RoundsTo m q → ∀ k, HasDigits d'.value k → HasDigits d.value k
  nearest : ∀ d' : Decimal, d'.RoundsTo m q → (∀ k, HasDigits d.value k → HasDigits d'.value k) →
    |d.value - m * 2 ^ q| ≤ |d'.value - m * 2 ^ q|

section Search

variable {d d' : Decimal} {m k : ℕ} {q : ℤ}

/-- The neighbour of `k` digits that rounds to the float, the nearer one if both do. -/
def withDigits? (m : ℕ) (q : ℤ) (k : ℕ) : Option Decimal :=
  (candidates (.ofBinary m q) k).find? (·.RoundsTo m q)

theorem exists_candidate_of_roundsTo (hm : 0 < m) (hk : 0 < k) (h : d'.RoundsTo m q)
    (hdigits : HasDigits d'.value k) : ∃ d ∈ candidates (.ofBinary m q) k, d.RoundsTo m q ∧
      |d.value - (Ratio.ofBinary m q).value| ≤ |d'.value - (Ratio.ofBinary m q).value| := by
  obtain ⟨d, hd, hbetween⟩ := hdigits.exists_candidate (Ratio.positive_ofBinary hm q) hk
  refine ⟨d, hd, h.of_mem_uIcc hm hbetween, ?_⟩
  rw [abs_sub_comm, abs_sub_comm d'.value]
  exact Set.abs_sub_right_of_mem_uIcc hbetween

theorem not_hasDigits_of_withDigits? (hm : 0 < m) (hk : 0 < k) (h : withDigits? m q k = none)
    (hd' : d'.RoundsTo m q) : ¬ HasDigits d'.value k := by
  intro hdigits
  obtain ⟨d, hd, hrounds, -⟩ := exists_candidate_of_roundsTo hm hk hd' hdigits
  simpa [hrounds] using List.find?_eq_none.1 h d hd

theorem nearest_of_withDigits? (hm : 0 < m) (hk : 0 < k) (h : withDigits? m q k = some d)
    (hd' : d'.RoundsTo m q) (hdigits : HasDigits d'.value k) :
    |d.value - (Ratio.ofBinary m q).value| ≤ |d'.value - (Ratio.ofBinary m q).value| := by
  obtain ⟨near, far, hpair, hcloser, -⟩ := exists_candidates (Ratio.positive_ofBinary hm q) k
  obtain ⟨c, hc, hrounds, hle⟩ := exists_candidate_of_roundsTo hm hk hd' hdigits
  refine le_trans ?_ hle
  rw [hpair] at hc
  rw [withDigits?, hpair] at h
  by_cases hnear : near.RoundsTo m q
  · rw [List.find?_cons_of_pos (by simpa using hnear)] at h
    obtain rfl := Option.some.inj h
    rcases List.mem_pair.1 hc with rfl | rfl
    · exact le_rfl
    · exact hcloser
  · rw [List.find?_cons_of_neg (by simpa using hnear)] at h
    obtain rfl : d = far := by simpa using List.mem_of_find?_eq_some h
    rcases List.mem_pair.1 hc with rfl | rfl
    · exact absurd hrounds hnear
    · exact le_rfl

/-- The shortest decimal is found with the least number of digits that one is found with. -/
theorem exists_withDigits?_eq (hm : Canonical m q) :
    ∃ k, withDigits? m q (k + 1) = some (shortest m q) ∧
      ∀ j < k, withDigits? m q (j + 1) = none := by
  obtain ⟨c, hc, hrounds⟩ := exists_candidate_seventeen hm
  cases h : (List.range 17).findSome? fun k => withDigits? m q (k + 1) with
  | none =>
    have hnone := List.findSome?_eq_none_iff.1 h 16 (by decide)
    simpa [hrounds] using List.find?_eq_none.1 hnone c hc
  | some d =>
    obtain ⟨before, k, after, hrange, hk, hbefore⟩ := List.findSome?_eq_some_iff.1 h
    have hd : shortest m q = d := by
      change ((List.range 17).findSome? fun k => withDigits? m q (k + 1)).getD (.exact m q) = d
      rw [h, Option.getD_some]
    refine ⟨k, hd ▸ hk, fun j hj => hbefore j ?_⟩
    have hsorted : (before ++ k :: after).Pairwise (· < ·) := hrange ▸ List.pairwise_lt_range
    have hk' : k ∈ List.range 17 := by simp [hrange]
    have hmem : j ∈ before ++ k :: after :=
      hrange ▸ List.mem_range.2 (hj.trans (List.mem_range.1 hk'))
    rcases List.mem_append.1 hmem with hmem | hmem
    · exact hmem
    · rcases List.mem_cons.1 hmem with rfl | hmem
      · exact absurd hj (lt_irrefl j)
      · have := List.rel_of_pairwise_cons (List.pairwise_append.1 hsorted).2.1 hmem
        omega

theorem mem_candidates_of_withDigits? (h : withDigits? m q k = some d) :
    d ∈ candidates (.ofBinary m q) k := List.mem_of_find?_eq_some h

theorem isShortest_shortest (hm : Canonical m q) : (shortest m q).IsShortest m q := by
  have hr := Ratio.positive_ofBinary hm.pos q
  obtain ⟨k, hfound, hfewer⟩ := exists_withDigits?_eq hm
  have hdigits := hasDigits_of_mem_candidates hr k.succ_pos (mem_candidates_of_withDigits? hfound)
  refine ⟨roundsTo_shortest hm.pos, fun d' hd' j hj => ?_, fun d' hd' hno => ?_⟩
  · by_contra hmore
    have hjk : j ≤ k := by
      by_contra hlt
      exact hmore (hdigits.mono (by omega))
    cases k with
    | zero =>
      obtain ⟨n, e, hn, hvalue⟩ := hj.mono hjk
      have hunits : (0 : ℚ) < d'.units := by exact_mod_cast hd'.units_pos hm.pos
      have hpos : 0 < d'.value := by
        rw [Decimal.value]
        positivity
      obtain rfl : n = 0 := by simpa using hn
      simp [hvalue] at hpos
    | succ k =>
      exact not_hasDigits_of_withDigits? hm.pos k.succ_pos (hfewer k k.lt_succ_self) hd'
        (hj.mono hjk)
  · rw [← Ratio.value_ofBinary]
    exact nearest_of_withDigits? hm.pos k.succ_pos hfound hd' (hno _ hdigits)

/-- The shortest decimal has no zero behind the point that it could do without. -/
theorem units_shortest_of_places (hm : Canonical m q) (h : (shortest m q).places ≠ 0) :
    (shortest m q).units % 10 ≠ 0 := by
  obtain ⟨k, hfound, -⟩ := exists_withDigits?_eq hm
  rcases mem_candidates.1 (mem_candidates_of_withDigits? hfound) with heq | heq <;> rw [heq] at h ⊢
  · exact Decimal.units_trim_of_places _ _ h
  · exact Decimal.units_trim_of_places _ _ h

end Search

end Patchbay.Number
