import Mathlib
import Patchbay.Number.Text
import Patchbay.Proofs.Number.Rounding

/-!
Reading a decimal. The quotient of whole numbers is rounded correctly, by the short way for small
numbers as by the long one, so a decimal between the midpoints around a float is read as that float.
In particular the shortest decimal of a float is read as the float.
-/
namespace Patchbay.Number

open Float.Model Float.Model.UnpackedFloat

section Quotient

variable {n d m : ℕ} {e₁ e₂ q : ℤ}

/-- A quotient of mantissas that was given `k` places more has no fewer places than these. -/
theorem log2_quotient (hn : 0 < n) (hd : 0 < d) (k : ℕ) :
    (n.log2 : ℤ) + k - d.log2 - 1 ≤ ((n <<< k / d).log2 : ℤ) := by
  rcases Nat.lt_or_ge (n.log2 + k) (d.log2 + 1) with hlt | hge
  · omega
  · have hpow : 2 ^ (n.log2 + k - d.log2 - 1) ≤ n <<< k / d := by
      rw [Nat.le_div_iff_mul_le hd, Nat.shiftLeft_eq]
      calc 2 ^ (n.log2 + k - d.log2 - 1) * d
          ≤ 2 ^ (n.log2 + k - d.log2 - 1) * 2 ^ (d.log2 + 1) :=
            Nat.mul_le_mul_left _ Nat.lt_log2_self.le
        _ = 2 ^ n.log2 * 2 ^ k := by
            rw [← pow_add, ← pow_add]
            congr 1
            omega
        _ ≤ n * 2 ^ k := Nat.mul_le_mul_right _ (Nat.log2_self_le hn.ne')
    have hne : n <<< k / d ≠ 0 := (Nat.lt_of_lt_of_le (by positivity) hpow).ne'
    have := (Nat.le_log2 hne).2 hpow
    omega

/-- The quotient of two mantissas is rounded to the float around it. -/
theorem div_eq (hn : 0 < n) (hd : 0 < d) (hm : Canonical m q) {v : ℚ}
    (hv : n * 2 ^ e₁ / (d * 2 ^ e₂) = v) (hbetween : Between (v * 2 ^ (-q)) m q) :
    UnpackedFloat.div .binary64 (.finite .positive n e₁ hn) (.finite .positive d e₂ hd) =
      .finite .positive m q hm.pos := by
  set t := min (e₁ - e₂)
    (Format.binary64.targetExponent (totalExponent n e₁ - totalExponent d e₂)) with ht
  set k := (e₁ - e₂ - t).toNat with hk
  have hdiv : UnpackedFloat.div .binary64 (.finite .positive n e₁ hn) (.finite .positive d e₂ hd) =
      roundWithAccuracy .binary64 .positive (n <<< k / d) t
        (accuracyOfFraction (n <<< k % d) d) := rfl
  have hk' : (k : ℤ) = e₁ - e₂ - t := by omega
  have hd' : (d : ℚ) ≠ 0 := by exact_mod_cast hd.ne'
  have hw : ((n <<< k / d : ℕ) : ℚ) + (n <<< k % d : ℕ) / d = n / d * 2 ^ (k : ℤ) := by
    have h : d * (n <<< k / d) + n <<< k % d = n * 2 ^ k := by
      rw [Nat.div_add_mod, Nat.shiftLeft_eq]
    have h' : (d : ℚ) * (n <<< k / d : ℕ) + (n <<< k % d : ℕ) = n * 2 ^ k := by exact_mod_cast h
    rw [zpow_natCast]
    field_simp
    linarith
  have hdescribes := Describes.fraction (n <<< k / d) (Nat.mod_lt (n <<< k) hd)
  rw [hw] at hdescribes
  rw [hdiv]
  apply roundWithAccuracy_eq hdescribes hm
  · have := log2_quotient hn hd k
    rw [targetExponent_eq]
    simp only [Format.targetExponent, totalExponent, Format.mantissaBits, Format.minExponent] at ht
    omega
  · convert hbetween using 1
    rw [← hv, mul_assoc, ← zpow_add₀ two_ne_zero,
      show (k : ℤ) + (t - q) = e₁ - e₂ + -q by omega, zpow_add₀ two_ne_zero,
      zpow_sub₀ two_ne_zero, ← mul_assoc, div_mul_div_comm]

end Quotient

section Whole

variable {n : ℕ}

/-- A whole number with the places that a mantissa has. -/
theorem canonical_shiftLeft (hn : 0 < n) (hlt : n < 2 ^ 53) :
    Canonical (n <<< (52 - n.log2)) (n.log2 - 52) := by
  have hlog : n.log2 < 53 := (Nat.log2_lt hn.ne').2 hlt
  have hlow : 2 ^ n.log2 ≤ n := Nat.log2_self_le hn.ne'
  have hhigh : n < 2 ^ (n.log2 + 1) := Nat.lt_log2_self
  have hsplit : 2 ^ n.log2 * 2 ^ (52 - n.log2) = 2 ^ 52 := by
    rw [← pow_add]
    congr 1
    omega
  have hsplit' : 2 ^ (n.log2 + 1) * 2 ^ (52 - n.log2) = 2 ^ 53 := by
    rw [← pow_add]
    congr 1
    omega
  rw [Nat.shiftLeft_eq]
  refine ⟨by positivity, ?_, by omega, by omega, .inr ?_⟩
  · rw [← hsplit']
    exact Nat.mul_lt_mul_of_pos_right hhigh (by positivity)
  · rw [← hsplit]
    exact Nat.mul_le_mul_right _ hlow

theorem round_whole (hn : 0 < n) (hlt : n < 2 ^ 53) :
    UnpackedFloat.round .binary64 .positive n 0 =
      .finite .positive (n <<< (52 - n.log2)) (n.log2 - 52) (canonical_shiftLeft hn hlt).pos := by
  have hlog : n.log2 < 53 := (Nat.log2_lt hn.ne').2 hlt
  have hc := canonical_shiftLeft hn hlt
  have hfull : (n <<< (52 - n.log2)).log2 = 52 := log2_full hc.lt (hc.full.resolve_left (by omega))
  have htarget : Format.binary64.targetExponent (totalExponent n 0) = n.log2 - 52 := by
    rw [targetExponent_eq]
    omega
  have hdecrease : decreaseExponent n 0 (n.log2 - 52) =
      (n <<< (52 - n.log2), (n.log2 : ℤ) - 52) := by
    rw [decreaseExponent, show (0 - ((n.log2 : ℤ) - 52)).toNat = 52 - n.log2 by omega]
    simp only [Prod.mk.injEq, true_and]
    omega
  simp only [UnpackedFloat.round, htarget, hdecrease]
  apply roundWithAccuracy_eq (.exact _) hc
  · rw [targetExponent_eq, hfull]
    omega
  · rw [sub_self, zpow_zero, mul_one]
    exact .self hc.pos _

theorem unpack_toFloat (hn : 0 < n) (hlt : n < 2 ^ 53) : n.toUInt64.toFloat.toModel.unpack =
    .finite .positive (n <<< (52 - n.log2)) (n.log2 - 52) (canonical_shiftLeft hn hlt).pos := by
  have hmod : n.toUInt64.toNat = n := by
    rw [Nat.toUInt64_eq, UInt64.toNat_ofNat']
    omega
  have hround : UnpackedFloat.ofUInt64 .binary64 n.toUInt64 =
      UnpackedFloat.round .binary64 .positive n 0 := by
    rw [UnpackedFloat.ofUInt64, UnpackedFloat.ofNat, UnpackedFloat.ofInt, hmod,
      UnpackedFloat.normalize, Int.compare_eq_gt.2 (by omega)]
    rfl
  have hmodel : n.toUInt64.toFloat.toModel = .pack (UnpackedFloat.ofUInt64 .binary64 n.toUInt64) :=
    rfl
  rw [hmodel, hround, round_whole hn hlt]
  exact unpack_pack (canonical_shiftLeft hn hlt)

theorem five_pow_lt {e : ℕ} (he : e ≤ 22) : 5 ^ e < 2 ^ 53 :=
  (Nat.pow_le_pow_right (by omega) he).trans_lt (by norm_num)

/-- The powers of ten that are floats. -/
theorem view_powerOfTen : ∀ e : Fin Float.exactlyRepresentablePowersOfTen.size,
    view Float.exactlyRepresentablePowersOfTen[e] =
      .finite false (5 ^ e.val <<< (52 - (5 ^ e.val).log2)) ((5 ^ e.val).log2 - 52 + e.val) := by
  decide +kernel

/-- Places that a mantissa is given are taken back by the exponent. -/
theorem shiftLeft_value (hlog : n.log2 < 53) (e : ℤ) :
    ((n <<< (52 - n.log2) : ℕ) : ℚ) * 2 ^ ((n.log2 : ℤ) - 52 + e) = n * 2 ^ e := by
  rw [Nat.shiftLeft_eq, Nat.cast_mul, Nat.cast_pow, Nat.cast_ofNat, ← zpow_natCast, mul_assoc,
    ← zpow_add₀ two_ne_zero]
  congr 2
  omega

end Whole

section Decimal

variable {u p m : ℕ} {q : ℤ}

theorem unpack_of_view {x : Float} (h : view x = .finite false m q) (hm : 0 < m) :
    x.toModel.unpack = .finite .positive m q hm := by
  simp only [view] at h
  split at h
  all_goals simp only [reduceCtorEq, View.finite.injEq] at h
  · omega
  · next s m' q' hm' hx =>
    obtain ⟨hs, rfl, rfl⟩ := h
    rw [hx]
    cases s with
    | negative => cases hs
    | positive => rfl

/-- Small numbers are divided as floats, since both of them are floats. -/
theorem view_div_powerOfTen (hu : 0 < u) (hlt : u < 2 ^ 53)
    (e : Fin Float.exactlyRepresentablePowersOfTen.size) (hm : Canonical m q)
    (hbetween : Between ((u : ℚ) / 10 ^ e.val * 2 ^ (-q)) m q) :
    view (u.toUInt64.toFloat / Float.exactlyRepresentablePowersOfTen[e]) = .finite false m q := by
  have hfive : 0 < 5 ^ e.val := by positivity
  have hlog : u.log2 < 53 := (Nat.log2_lt hu.ne').2 hlt
  have hlog5 : (5 ^ e.val).log2 < 53 :=
    (Nat.log2_lt hfive.ne').2 (five_pow_lt (Nat.le_of_lt_succ e.isLt))
  have hpos := (canonical_shiftLeft hfive (five_pow_lt (Nat.le_of_lt_succ e.isLt))).pos
  have hmodel : (u.toUInt64.toFloat / Float.exactlyRepresentablePowersOfTen[e]).toModel =
      .pack (UnpackedFloat.div .binary64 u.toUInt64.toFloat.toModel.unpack
        Float.exactlyRepresentablePowersOfTen[e].toModel.unpack) := rfl
  have hvalue : (u <<< (52 - u.log2) : ℕ) * (2 : ℚ) ^ ((u.log2 : ℤ) - 52) /
      ((5 ^ e.val <<< (52 - (5 ^ e.val).log2) : ℕ) *
        (2 : ℚ) ^ (((5 ^ e.val).log2 : ℤ) - 52 + e.val)) = u / 10 ^ e.val := by
    have hnum := shiftLeft_value hlog 0
    rw [add_zero, zpow_zero, mul_one] at hnum
    rw [hnum, shiftLeft_value hlog5, zpow_natCast, Nat.cast_pow, ← mul_pow]
    norm_num
  have hunpack : (u.toUInt64.toFloat / Float.exactlyRepresentablePowersOfTen[e]).toModel.unpack =
      .finite .positive m q hm.pos := by
    rw [hmodel, unpack_toFloat hu hlt, unpack_of_view (view_powerOfTen e) hpos,
      div_eq _ _ hm hvalue hbetween]
    exact unpack_pack hm
  exact view_of_unpack hunpack

/-- A value around a float is not too small for any exponent of a float. -/
theorem two_zpow_le_of_between {v : ℚ} (hm : Canonical m q)
    (hbetween : Between (v * 2 ^ (-q)) m q) :
    2 ^ (-1075 : ℤ) ≤ v := by
  have hlower := hbetween.nearest.le
  have hone : (1 : ℚ) ≤ m := by exact_mod_cast hm.pos
  have hge := hm.ge
  calc (2 : ℚ) ^ (-1075 : ℤ) ≤ 2 ^ (q - 1) := zpow_le_zpow_right₀ one_le_two (by omega)
    _ = 1 / 2 * 2 ^ q := by rw [zpow_sub_one₀ two_ne_zero]; ring
    _ ≤ v * 2 ^ (-q) * 2 ^ q := by
        apply mul_le_mul_of_nonneg_right _ (by positivity)
        linarith
    _ = v := by rw [mul_assoc, ← zpow_add₀ two_ne_zero, neg_add_cancel, zpow_zero, mul_one]

theorem div_pow_lt (u : ℕ) : (u : ℚ) / 10 ^ p < 2 ^ ((u.log2 : ℤ) + 1 - p) := by
  have hlt : (u : ℚ) < 2 ^ (u.log2 + 1) := by exact_mod_cast Nat.lt_log2_self
  have hpow : (2 : ℚ) ^ p ≤ 10 ^ p := pow_le_pow_left₀ (by norm_num) (by norm_num) p
  have hcast : (u.log2 : ℤ) + 1 = (u.log2 + 1 : ℕ) := by push_cast; rfl
  rw [zpow_sub₀ two_ne_zero, hcast, zpow_natCast, zpow_natCast]
  exact div_lt_div₀ hlt hpow (by positivity) (by positivity)

theorem div_pow_zero_eq (u : ℕ) : (u : ℚ) / (10 : ℚ) ^ 0 = (u <<< 53 : ℕ) * 2 ^ (-53 : ℤ) := by
  rw [Nat.shiftLeft_eq, zpow_neg, Nat.cast_mul, ← div_eq_mul_inv, pow_zero, div_one]
  norm_num

theorem mul_eq {s s' : UnpackedFloat.Sign} {n n' : ℕ} {e e' : ℤ} (hn : 0 < n) (hn' : 0 < n') :
    UnpackedFloat.mul .binary64 (.finite s n e hn) (.finite s' n' e' hn') =
      roundWithAccuracy .binary64 (s * s') (n * n') (e + e') .exact := rfl

/-- Other decimals are rounded from their exact value. -/
theorem ofScientific_eq (hu : 0 < u) (hm : Canonical m q)
    (hbetween : Between ((u : ℚ) / 10 ^ p * 2 ^ (-q)) m q) :
    UnpackedFloat.ofScientific .binary64 u (Int.negOfNat p) = .finite .positive m q hm.pos := by
  have hneg : Int.negOfNat p = -(p : ℤ) := Int.negOfNat_eq
  have hlarge : ¬Int.negOfNat p > (2 : ℤ) ^ Format.binary64.exponentBits := by
    change ¬Int.negOfNat p > (2 : ℤ) ^ 11
    omega
  have hsmall : ¬Int.negOfNat p < -((2 : ℤ) ^ Format.binary64.exponentBits + u.log2) := by
    change ¬Int.negOfNat p < -((2 : ℤ) ^ 11 + u.log2)
    intro hlt
    have hexp : (2 : ℚ) ^ ((u.log2 : ℤ) + 1 - p) ≤ 2 ^ (-1075 : ℤ) :=
      zpow_le_zpow_right₀ one_le_two (by omega)
    have hv := two_zpow_le_of_between hm hbetween
    linarith [div_pow_lt (p := p) u]
  rw [UnpackedFloat.ofScientific, dif_neg hu.ne', if_neg hlarge, if_neg hsmall]
  rcases Nat.eq_zero_or_pos p with rfl | hp
  · have hone : 10 ^ (Int.negOfNat 0).toNat = 1 := rfl
    have hbits : Format.binary64.mantissaBits = 53 := rfl
    rw [if_pos (by omega), mul_eq, hone, hbits, Nat.mul_one, add_zero]
    rw [div_pow_zero_eq, mul_assoc, ← zpow_add₀ two_ne_zero] at hbetween
    apply roundWithAccuracy_eq (.exact _) hm
    · have hlog : u.log2 + 53 ≤ (u <<< 53).log2 := by
        rw [Nat.le_log2 (by rw [Nat.shiftLeft_eq]; positivity), Nat.shiftLeft_eq, pow_add]
        exact Nat.mul_le_mul_right _ (Nat.log2_self_le hu.ne')
      rw [targetExponent_eq]
      push_cast
      omega
    · exact hbetween
  · rw [if_neg (by omega)]
    apply div_eq _ _ hm _ hbetween
    rw [show (-Int.negOfNat p).toNat = p by omega]
    norm_num

theorem view_ofScientific (hu : 0 < u) (hm : Canonical m q)
    (hbetween : Between ((u : ℚ) / 10 ^ p * 2 ^ (-q)) m q) :
    view (Float.ofScientific u true p) = .finite false m q := by
  unfold Float.ofScientific
  split
  · next h => exact view_div_powerOfTen hu h.1 ⟨p, Nat.lt_succ_of_le h.2⟩ hm hbetween
  · have hmodel : Float.Model.ofScientific u (Int.negOfNat p) =
        .pack (.finite .positive m q hm.pos) := by
      rw [← ofScientific_eq hu hm hbetween]
      rfl
    rw [if_pos rfl]
    simp only [hmodel]
    exact view_of_unpack (unpack_ofModel_pack hm .positive)

/-- The exact value of a decimal. -/
def Decimal.value (d : Decimal) : ℚ := d.units / 10 ^ d.places

theorem Decimal.roundsTo_iff_between (d : Decimal) (m : ℕ) (q : ℤ) :
    d.RoundsTo m q ↔ Between (d.value * 2 ^ (-q)) m q := by
  set scale := tenTo d.places <<< (q - 2).toNat with hscale
  have hpos : (0 : ℚ) < scale := by
    rw [hscale, Nat.shiftLeft_eq]
    exact_mod_cast Nat.mul_pos (tenTo_pos _) (Nat.pow_pos two_pos)
  have hvalue : ((d.units <<< (2 - q).toNat : ℕ) : ℚ) = 4 * (d.value * 2 ^ (-q)) * scale := by
    have hten : (tenTo d.places : ℚ) = 10 ^ d.places := by simp [tenTo]
    have hten' : (10 : ℚ) ^ d.places ≠ 0 := by positivity
    have hpow : (2 : ℚ) ^ (2 - q).toNat = 4 * 2 ^ (-q) * 2 ^ (q - 2).toNat := by
      rw [← zpow_natCast, ← zpow_natCast, show (4 : ℚ) = 2 ^ (2 : ℤ) by norm_num,
        ← zpow_add₀ two_ne_zero, ← zpow_add₀ two_ne_zero]
      congr 1
      omega
    rw [hscale, Nat.shiftLeft_eq, Nat.shiftLeft_eq, Decimal.value]
    push_cast
    rw [hten, hpow]
    field_simp
  have hle (k : ℕ) :
      k * scale ≤ d.units <<< (2 - q).toNat ↔ (k : ℚ) ≤ 4 * (d.value * 2 ^ (-q)) := by
    rw [← mul_le_mul_iff_left₀ hpos, ← hvalue]
    exact_mod_cast Iff.rfl
  have hge (k : ℕ) :
      d.units <<< (2 - q).toNat ≤ k * scale ↔ 4 * (d.value * 2 ^ (-q)) ≤ (k : ℚ) := by
    rw [← mul_le_mul_iff_left₀ hpos, ← hvalue]
    exact_mod_cast Iff.rfl
  simp only [Decimal.RoundsTo, Between, ← not_le, hle, hge, ← hscale]

theorem cancel_exponent (m : ℕ) (q : ℤ) : (m : ℚ) * 2 ^ q * 2 ^ (-q) = m := by
  rw [mul_assoc, ← zpow_add₀ two_ne_zero, add_neg_cancel, zpow_zero, mul_one]

/-- The exact value of a float rounds to it. -/
theorem Decimal.roundsTo_of_value {d : Decimal} (hm : 0 < m) (h : d.value = m * 2 ^ q) :
    d.RoundsTo m q := by
  rw [Decimal.roundsTo_iff_between, h, cancel_exponent]
  exact Between.self hm q

theorem Decimal.RoundsTo.units_pos {d : Decimal} (h : d.RoundsTo m q) (hm : 0 < m) :
    0 < d.units := by
  have hlower := ((d.roundsTo_iff_between m q).1 h).nearest.le
  have hone : (1 : ℚ) ≤ m := by exact_mod_cast hm
  by_contra hzero
  rw [Decimal.value, Nat.eq_zero_of_not_pos hzero] at hlower
  norm_num at hlower
  linarith

/-- A decimal that rounds to a float is read as the float, however many places it is written
with. -/
theorem view_ofScientific_of_roundsTo {d : Decimal} (h : d.RoundsTo m q) (hm : Canonical m q)
    (hvalue : (u : ℚ) / 10 ^ p = d.value) :
    view (Float.ofScientific u true p) = .finite false m q := by
  have hbetween := (d.roundsTo_iff_between m q).1 h
  rw [← hvalue] at hbetween
  refine view_ofScientific (Nat.pos_of_ne_zero ?_) hm hbetween
  rintro rfl
  have hunits : (0 : ℚ) < d.units := by exact_mod_cast h.units_pos hm.pos
  have : 0 < d.value := by
    rw [Decimal.value]
    positivity
  rw [← hvalue] at this
  norm_num at this

end Decimal

end Patchbay.Number
