import Mathlib
import Patchbay.Proofs.Number.Packing

/-!
Rounding to the nearest float. A mantissa with two further bits stands for a value, shifts keep
what it stands for, and so its rounding is the nearest whole number. The main statement is that a
value between the midpoints around a float rounds to that float.
-/
namespace Patchbay.Number

open Float.Model Float.Model.UnpackedFloat

/-- The mantissa with its two bits stands for `w`: one bit is worth a half, the other tells whether
something less is left. -/
def Describes (em : ExtendedMantissa) (w : ℚ) : Prop :=
  ∃ rest : ℚ, 0 ≤ rest ∧ rest < 1 / 2 ∧ (em.stickyBit = true ↔ rest ≠ 0) ∧
    w = em.mantissa + (if em.roundBit then 1 / 2 else 0) + rest

/-- No whole number is nearer to `w` than `m`, and of two equally near `m` is the even one. -/
def Nearest (w : ℚ) (m : ℕ) : Prop :=
  if m % 2 = 0 then (m : ℚ) - 1 / 2 ≤ w ∧ w ≤ m + 1 / 2 else (m : ℚ) - 1 / 2 < w ∧ w < m + 1 / 2

theorem Nearest.le {w : ℚ} {m : ℕ} (h : Nearest w m) : (m : ℚ) - 1 / 2 ≤ w := by
  unfold Nearest at h
  split at h
  · exact h.1
  · exact h.1.le

theorem Nearest.ge {w : ℚ} {m : ℕ} (h : Nearest w m) : w ≤ m + 1 / 2 := by
  unfold Nearest at h
  split at h
  · exact h.2
  · exact h.2.le

/-- Halfway between two whole numbers the even one counts as nearest. -/
theorem Nearest.even {n m : ℕ} (h : Nearest (n + 1 / 2) m) : m % 2 = 0 := by
  by_contra hodd
  rw [Nearest, if_neg hodd] at h
  have hlow : (m : ℚ) < n + 1 := by linarith [h.1]
  have hhigh : (n : ℚ) < m := by linarith [h.2]
  norm_cast at hlow hhigh
  omega

namespace Describes

variable {em : ExtendedMantissa} {w : ℚ}

theorem exact (m : ℕ) : Describes (.ofMantissaAndAccuracy m .exact) m :=
  ⟨0, by simp [ExtendedMantissa.ofMantissaAndAccuracy]⟩

/-- What is left of a quotient behind its whole part. -/
theorem fraction {num den : ℕ} (m : ℕ) (h : num < den) :
    Describes (.ofMantissaAndAccuracy m (accuracyOfFraction num den)) (m + num / den) := by
  have hden : (0 : ℚ) < den := by exact_mod_cast Nat.zero_lt_of_lt h
  rcases Nat.eq_zero_or_pos num with rfl | hnum
  · simpa [accuracyOfFraction] using exact m
  have hpos : (0 : ℚ) < num / den := div_pos (by exact_mod_cast hnum) hden
  have hlt : (num : ℚ) / den < 1 := (div_lt_one hden).2 (by exact_mod_cast h)
  have hcompare := lt_trichotomy (2 * num) den
  simp only [accuracyOfFraction, hnum.ne', if_false]
  rcases hcompare with hcompare | hcompare | hcompare
  · have hhalf : (num : ℚ) / den < 1 / 2 := by
      rw [div_lt_div_iff₀ hden two_pos]
      exact_mod_cast (by omega : num * 2 < 1 * den)
    rw [Nat.compare_eq_lt.2 hcompare]
    exact ⟨num / den, hpos.le, hhalf, by simp [ExtendedMantissa.ofMantissaAndAccuracy, hpos.ne'], by
      simp [ExtendedMantissa.ofMantissaAndAccuracy]⟩
  · have hhalf : (num : ℚ) / den = 1 / 2 := by
      rw [div_eq_div_iff hden.ne' two_ne_zero]
      exact_mod_cast (by omega : num * 2 = 1 * den)
    rw [Nat.compare_eq_eq.2 hcompare]
    exact ⟨0, le_rfl, by norm_num, by simp [ExtendedMantissa.ofMantissaAndAccuracy], by
      simp [ExtendedMantissa.ofMantissaAndAccuracy, hhalf]⟩
  · have hhalf : 1 / 2 < (num : ℚ) / den := by
      rw [div_lt_div_iff₀ two_pos hden]
      exact_mod_cast (by omega : 1 * den < num * 2)
    have hrest : (num : ℚ) / den - 1 / 2 ≠ 0 := by linarith
    rw [Nat.compare_eq_gt.2 hcompare]
    exact ⟨num / den - 1 / 2, by linarith, by linarith,
      by simpa [ExtendedMantissa.ofMantissaAndAccuracy] using hrest, by
      simp [ExtendedMantissa.ofMantissaAndAccuracy]⟩

theorem shiftRightOne (h : Describes em w) : Describes em.shiftRightOne (w / 2) := by
  obtain ⟨rest, h0, hhalf, hsticky, rfl⟩ := h
  have hm : (em.mantissa : ℚ) = 2 * (em.mantissa / 2 : ℕ) + (em.mantissa % 2 : ℕ) := by
    exact_mod_cast (Nat.div_add_mod em.mantissa 2).symm
  refine ⟨(if em.roundBit then 1 / 4 else 0) + rest / 2, ?_, ?_, ?_, ?_⟩
  · split <;> linarith
  · split <;> linarith
  · simp only [ExtendedMantissa.shiftRightOne]
    cases em.roundBit
    · simpa using hsticky
    · simp; linarith
  · simp only [ExtendedMantissa.shiftRightOne]
    rw [hm]
    rcases Nat.mod_two_eq_zero_or_one em.mantissa with hmod | hmod
    · cases em.roundBit <;> simp [hmod] <;> ring
    · cases em.roundBit <;> simp [hmod] <;> ring

theorem shiftRight (h : Describes em w) (k : ℕ) : Describes (em >>> k) (w / 2 ^ k) := by
  change Describes (k.repeat ExtendedMantissa.shiftRightOne em) _
  induction k with
  | zero => simpa [Nat.repeat] using h
  | succ k ih =>
    rw [Nat.repeat, pow_succ, ← div_div]
    exact ih.shiftRightOne

theorem le (h : Describes em w) : (em.mantissa : ℚ) ≤ w := by
  obtain ⟨rest, h0, -, -, rfl⟩ := h
  split <;> linarith

theorem lt (h : Describes em w) : w < em.mantissa + 1 := by
  obtain ⟨rest, -, hhalf, -, rfl⟩ := h
  split <;> linarith

/-- The rounded mantissa is the nearest whole number. -/
theorem roundedMantissa_eq (h : Describes em w) {m : ℕ} (hm : Nearest w m) :
    em.roundedMantissa = m := by
  obtain ⟨rest, h0, hhalf, hsticky, rfl⟩ := h
  obtain ⟨n, roundBit, stickyBit⟩ := em
  simp only [ExtendedMantissa.roundedMantissa, ExtendedMantissa.accuracy] at *
  have hlow := hm.le
  have hhigh := hm.ge
  cases roundBit <;> cases stickyBit <;>
    simp only [Bool.false_eq_true, if_true, if_false, false_iff, true_iff, not_not] at *
  case false.false | false.true =>
    have hn : (n : ℚ) < m + 1 := by linarith
    have hm : (m : ℚ) < n + 1 := by linarith
    norm_cast at hn hm
    simp only [Accuracy.roundToNearestEven]
    omega
  case true.false =>
    subst hsticky
    rw [add_zero] at hm
    have heven := hm.even
    have hn : (n : ℚ) < m + 1 := by linarith
    have hm : (m : ℚ) < n + 2 := by linarith
    norm_cast at hn hm
    simp only [Accuracy.roundToNearestEven]
    omega
  case true.true =>
    have hpos : 0 < rest := lt_of_le_of_ne h0 (Ne.symm hsticky)
    have hn : (n : ℚ) < m := by linarith
    have hm : (m : ℚ) < n + 2 := by linarith
    norm_cast at hn hm
    simp only [Accuracy.roundToNearestEven]
    omega

end Describes

/-- The value `x * 2 ^ q` lies between the midpoints around the float `m * 2 ^ q`. The midpoints
themselves belong to the float with the even mantissa. -/
def Between (x : ℚ) (m : ℕ) (q : ℤ) : Prop :=
  if m % 2 = 0 then (lowerMidpoint m q : ℚ) ≤ 4 * x ∧ 4 * x ≤ upperMidpoint m
  else (lowerMidpoint m q : ℚ) < 4 * x ∧ 4 * x < upperMidpoint m

section Between

variable {x w : ℚ} {m n : ℕ} {q t : ℤ}

theorem lowerMidpoint_ge (m : ℕ) (q : ℤ) : (4 * m - 2 : ℚ) ≤ lowerMidpoint m q := by
  have h : 4 * m ≤ lowerMidpoint m q + 2 := by
    unfold lowerMidpoint
    split <;> omega
  have h' : (4 * m : ℚ) ≤ lowerMidpoint m q + 2 := by exact_mod_cast h
  linarith

theorem upperMidpoint_eq (m : ℕ) : (upperMidpoint m : ℚ) = 4 * m + 2 := by
  unfold upperMidpoint
  push_cast
  ring

theorem Between.lower_le (h : Between x m q) : (lowerMidpoint m q : ℚ) ≤ 4 * x := by
  unfold Between at h
  split at h
  · exact h.1
  · exact h.1.le

theorem Between.le_upper (h : Between x m q) : 4 * x ≤ 4 * m + 2 := by
  rw [← upperMidpoint_eq]
  unfold Between at h
  split at h
  · exact h.2
  · exact h.2.le

theorem Between.self (hm : 0 < m) (q : ℤ) : Between m m q := by
  have hlower : lowerMidpoint m q < 4 * m := by
    unfold lowerMidpoint
    split <;> omega
  have hlower' : (lowerMidpoint m q : ℚ) < 4 * m := by exact_mod_cast hlower
  unfold Between
  rw [upperMidpoint_eq]
  split <;> constructor <;> linarith

theorem Between.nearest (h : Between x m q) : Nearest x m := by
  have hlower := lowerMidpoint_ge m q
  unfold Between at h
  rw [upperMidpoint_eq] at h
  unfold Nearest
  split at h
  · next heven => rw [if_pos heven]; constructor <;> linarith [h.1, h.2]
  · next hodd => rw [if_neg hodd]; constructor <;> linarith [h.1, h.2]

theorem pow_log2_le (hn : n ≠ 0) (hw : (n : ℚ) ≤ w) : (2 : ℚ) ^ (n.log2 : ℤ) ≤ w := by
  have h : 2 ^ n.log2 ≤ n := Nat.log2_self_le hn
  have h' : (2 : ℚ) ^ n.log2 ≤ n := by exact_mod_cast h
  rw [zpow_natCast]
  linarith

theorem lt_pow_log2 (hw : w < n + 1) : w < (2 : ℚ) ^ ((n.log2 : ℤ) + 1) := by
  have h : n + 1 ≤ 2 ^ (n.log2 + 1) := Nat.lt_log2_self
  have h' : (n + 1 : ℚ) ≤ 2 ^ (n.log2 + 1) := by exact_mod_cast h
  have hcast : (n.log2 : ℤ) + 1 = (n.log2 + 1 : ℕ) := by push_cast; rfl
  rw [hcast, zpow_natCast]
  linarith

theorem log2_lt_of_lt (hn : n ≠ 0) (hw : (n : ℚ) ≤ w) {p : ℤ} (hx : w * 2 ^ (t - q) < 2 ^ p) :
    n.log2 + t - q < p := by
  have hpow : (2 : ℚ) ^ (n.log2 + (t - q)) ≤ w * 2 ^ (t - q) := by
    rw [zpow_add₀ two_ne_zero]
    exact mul_le_mul_of_nonneg_right (pow_log2_le hn hw) (by positivity)
  have := (zpow_lt_zpow_iff_right₀ one_lt_two).1 (hpow.trans_lt hx)
  omega

theorem lt_log2_of_le (hw : w < n + 1) {p : ℤ} (hx : (2 : ℚ) ^ p ≤ w * 2 ^ (t - q)) :
    p < n.log2 + 1 + t - q := by
  have hpow : w * 2 ^ (t - q) < (2 : ℚ) ^ (n.log2 + 1 + (t - q)) := by
    rw [zpow_add₀ two_ne_zero]
    exact mul_lt_mul_of_pos_right (lt_pow_log2 hw) (by positivity)
  have := (zpow_lt_zpow_iff_right₀ one_lt_two).1 (hx.trans_lt hpow)
  omega

/-- Values that round to one float are written with the exponent of that float. Only just below a
power of two the floats are denser, and the exponent there is the one below. -/
theorem Between.exponent (h : Between (w * 2 ^ (t - q)) m q) (hm : Canonical m q)
    (hn : (n : ℚ) ≤ w) (hw : w < n + 1) (ht : t ≤ max (n.log2 + t - 52) (-1074)) :
    max (n.log2 + t - 52) (-1074) = q ∨
      max (n.log2 + t - 52) (-1074) = q - 1 ∧ m = 2 ^ 52 ∧ q ≠ -1074 ∧
        w * 2 ^ (t - q) < 2 ^ 52 := by
  set x := w * 2 ^ (t - q) with hx
  have hlower := h.lower_le
  have hlower' := lowerMidpoint_ge m q
  have hupper := h.le_upper
  have hlt : (m : ℚ) + 1 ≤ 2 ^ 53 := by exact_mod_cast hm.lt
  have hge := hm.ge
  have hzero : n = 0 → t ≤ -1074 := by
    rintro rfl
    simp only [Nat.log2_zero] at ht
    omega
  have hle : max (n.log2 + t - 52) (-1074) ≤ q := by
    rcases eq_or_ne n 0 with hn0 | hn0
    · have := hzero hn0
      simp only [hn0, Nat.log2_zero]
      omega
    · have := log2_lt_of_lt hn0 hn (p := 53) (show x < 2 ^ (53 : ℤ) by norm_num at hlt ⊢; linarith)
      omega
  rcases hm.full with rfl | hfull
  · left
    omega
  have hfull' : (2 ^ 52 : ℚ) ≤ m := by exact_mod_cast hfull
  rcases le_or_gt (2 ^ 52) x with hge52 | hlt52
  · left
    have := lt_log2_of_le hw (p := 52) (show (2 : ℚ) ^ (52 : ℤ) ≤ x by exact_mod_cast hge52)
    omega
  · obtain rfl : m = 2 ^ 52 := by
      have : (m : ℚ) < 2 ^ 52 + 1 := by linarith
      have : m < 2 ^ 52 + 1 := by exact_mod_cast this
      omega
    rcases eq_or_ne q (-1074) with rfl | hq
    · left
      omega
    · right
      have hbelow := lt_log2_of_le hw (p := 51) (show (2 : ℚ) ^ (51 : ℤ) ≤ x by
        have hmid := hlower'.trans hlower
        norm_num at hmid ⊢
        linarith)
      have hn0 : n ≠ 0 := by
        intro hn0
        have := hzero hn0
        simp only [hn0, Nat.log2_zero] at hbelow
        omega
      have habove := log2_lt_of_lt hn0 hn (p := 52) (show x < 2 ^ (52 : ℤ) by exact_mod_cast hlt52)
      exact ⟨by omega, rfl, hq, hlt52⟩

/-- Just below a power of two the next power, at the exponent below, is the nearest. -/
theorem Between.nearest_two_mul (h : Between x (2 ^ 52) q) (hq : q ≠ -1074) (hge : -1074 ≤ q)
    (hx : x < 2 ^ 52) : Nearest (2 * x) (2 ^ 53) := by
  have hlower := h.lower_le
  have hmid : lowerMidpoint (2 ^ 52) q = 4 * 2 ^ 52 - 1 := by
    rw [lowerMidpoint, if_pos ⟨rfl, by simp only [minExponent]; omega⟩]
  rw [hmid] at hlower
  rw [Nearest, if_pos (by norm_num)]
  norm_num at hlower hx ⊢
  constructor <;> linarith

end Between

theorem targetExponent_eq (n : ℕ) (t : ℤ) :
    Format.binary64.targetExponent (totalExponent n t) = max (n.log2 + t - 52) (-1074) := by
  simp only [Format.targetExponent, totalExponent, Format.mantissaBits, Format.minExponent]
  omega

section Rounding

variable {sign : Sign} {n m m' : ℕ} {t q e : ℤ} {accuracy : Accuracy} {w : ℚ}

theorem shiftToTargetExponent_eq (he : max (n.log2 + t - 52) (-1074) = e) (ht : t ≤ e) :
    shiftToTargetExponent .binary64 n t accuracy =
      (ExtendedMantissa.ofMantissaAndAccuracy n accuracy >>> (e - t).toNat, e) := by
  have hsum : t + ((e - t).toNat : ℤ) = e := by omega
  simp only [shiftToTargetExponent, shiftToExponent, targetExponent_eq, he, hsum]

theorem roundWithAccuracy_of_shifts (hm : 0 < m) {em : ExtendedMantissa}
    (hfirst : shiftToTargetExponent .binary64 n t accuracy = (em, e))
    (hsecond : (shiftToTargetExponent .binary64 em.roundedMantissa e .exact).1.mantissa = m)
    (hexp : (shiftToTargetExponent .binary64 em.roundedMantissa e .exact).2 = q) :
    roundWithAccuracy .binary64 sign n t accuracy = .finite sign m q hm := by
  subst hsecond hexp
  simp only [roundWithAccuracy, hfirst]
  exact dif_neg hm.ne'

/-- Rounding to the target exponent, where a mantissa and its accuracy stand for a value between the
midpoints around a float, gives that float. -/
theorem roundWithAccuracy_eq (hdescribes : Describes (.ofMantissaAndAccuracy n accuracy) w)
    (hm : Canonical m q) (ht : t ≤ Format.binary64.targetExponent (totalExponent n t))
    (hbetween : Between (w * 2 ^ (t - q)) m q) :
    roundWithAccuracy .binary64 sign n t accuracy = .finite sign m q hm.pos := by
  rw [targetExponent_eq] at ht
  have hmantissa : (ExtendedMantissa.ofMantissaAndAccuracy n accuracy).mantissa = n := by
    cases accuracy with
    | exact => rfl
    | inexact o => cases o <;> rfl
  have hn := hdescribes.le
  have hw := hdescribes.lt
  rw [hmantissa] at hn hw
  have hshift (e : ℤ) (he : t ≤ e) : w / 2 ^ (e - t).toNat = w * 2 ^ (t - e) := by
    rw [div_eq_mul_inv, ← zpow_natCast, ← zpow_neg]
    congr 2
    omega
  rcases hbetween.exponent hm hn hw ht with hexp | ⟨hexp, rfl, hq, hlt⟩
  · have htq : t ≤ q := ht.trans hexp.le
    have hrounded := (hdescribes.shiftRight (q - t).toNat).roundedMantissa_eq (m := m) (by
      rw [hshift q htq]
      exact hbetween.nearest)
    have hlog : m.log2 < 53 := (Nat.log2_lt hm.pos.ne').2 hm.lt
    have hfull : q = -1074 ∨ m.log2 = 52 := hm.full.imp_right (log2_full hm.lt)
    have hge := hm.ge
    have hsecond : shiftToTargetExponent .binary64 m q .exact =
        (ExtendedMantissa.ofMantissaAndAccuracy m .exact >>> (q - q).toNat, q) :=
      shiftToTargetExponent_eq (by omega) le_rfl
    rw [sub_self] at hsecond
    apply roundWithAccuracy_of_shifts hm.pos (shiftToTargetExponent_eq hexp htq)
    · rw [hrounded, hsecond]
      rfl
    · rw [hrounded, hsecond]
  · have hge := hm.ge
    have htq : t ≤ q - 1 := ht.trans hexp.le
    have hrounded := (hdescribes.shiftRight (q - 1 - t).toNat).roundedMantissa_eq
      (m := 2 ^ 53) (by
        have hdouble : w * 2 ^ (t - (q - 1)) = 2 * (w * 2 ^ (t - q)) := by
          rw [show t - (q - 1) = t - q + 1 by ring, zpow_add_one₀ two_ne_zero]
          ring
        rw [hshift (q - 1) htq, hdouble]
        exact hbetween.nearest_two_mul hq hm.ge hlt)
    -- The mantissa has outgrown its places and is shifted once more.
    have hsecond : shiftToTargetExponent .binary64 (2 ^ 53) (q - 1) .exact =
        (ExtendedMantissa.ofMantissaAndAccuracy (2 ^ 53) .exact >>> (q - (q - 1)).toNat, q) :=
      shiftToTargetExponent_eq (by rw [Nat.log2_two_pow]; omega) (by omega)
    rw [show q - (q - 1) = 1 by ring] at hsecond
    apply roundWithAccuracy_of_shifts hm.pos (shiftToTargetExponent_eq hexp htq)
    · rw [hrounded, hsecond]
      rfl
    · rw [hrounded, hsecond]

end Rounding

end Patchbay.Number
