import Mathlib
import Patchbay.Proofs.Code.Literal
import Patchbay.Proofs.Number.Comparison
import Patchbay.Proofs.Number.Shortest

/-!
The text of a number. Small whole numbers are written by their digits alone, which is what the
shortest decimal comes to: below the bound floats stand so close that no other whole number rounds
to the same float. So the short way and the general one give one text, but for negative zero.
-/
namespace Patchbay

open Number

section Whole

variable {m w k : ℕ} {q : ℤ}

/-- Small whole numbers leave no places for a greater exponent. -/
theorem exponent_nonpos (hm : Canonical m q) (hwhole : isWhole m q)
    (hsmall : wholePart m q < wholeTextBound) : q ≤ 0 := by
  by_contra hq
  have hfull : (2 : ℚ) ^ 52 ≤ m := by exact_mod_cast hm.full.resolve_left (by omega)
  have hpow : (1 : ℚ) ≤ 2 ^ q := one_le_zpow₀ one_le_two (by omega)
  have hsmall' : (wholePart m q : ℚ) < wholeTextBound := by exact_mod_cast hsmall
  rw [Numeral.cast_wholePart hwhole, wholeTextBound] at hsmall'
  have hmul := mul_le_mul hfull hpow zero_le_one (by positivity)
  norm_num at hsmall' hmul
  linarith

/-- No other whole number rounds to the float. -/
theorem eq_wholePart_of_roundsTo (hq : q ≤ 0) (hwhole : isWhole m q)
    (h : Decimal.RoundsTo ⟨w, 0⟩ m q) : w = wholePart m q := by
  have hnearest := ((Decimal.roundsTo_iff_between _ m q).1 h).nearest
  have hlow := hnearest.le
  have hhigh := hnearest.ge
  have hscale : (1 : ℚ) ≤ 2 ^ (-q) := one_le_zpow₀ one_le_two (by omega)
  rw [← cancel_exponent m q, ← Numeral.cast_wholePart hwhole, Decimal.value, pow_zero,
    div_one] at hlow hhigh
  -- Two whole numbers that differ would stand at least a unit apart, and scaled even more.
  have hne (a b : ℕ) (hlt : a < b) : (a : ℚ) * 2 ^ (-q) + 1 ≤ b * 2 ^ (-q) := by
    have hle : (a : ℚ) + 1 ≤ b := by exact_mod_cast hlt
    have := mul_le_mul_of_nonneg_right hle (zero_le_one.trans hscale)
    linarith
  rcases lt_trichotomy w (wholePart m q) with hlt | heq | hgt
  · have := hne _ _ hlt
    linarith
  · exact heq
  · have := hne _ _ hgt
    linarith

/-- The digits of a whole number are enough, so no more of them are tried. -/
theorem le_digitCount (hm : 0 < m) (hwhole : isWhole m q)
    (hfewer : ∀ j < k, withDigits? m q (j + 1) = none) : k + 1 ≤ digitCount (wholePart m q) := by
  by_contra hlt
  have hcount := digitCount_pos (wholePart m q)
  have hnone := hfewer (digitCount (wholePart m q) - 1) (by omega)
  rw [Nat.sub_add_cancel hcount] at hnone
  refine not_hasDigits_of_withDigits? hm hcount hnone (Numeral.roundsTo_wholePart hm hwhole)
    ⟨wholePart m q, 0, lt_pow_digitCount _, ?_⟩
  simp [Decimal.value]

/-- With no more digits than the number has, the grid holds whole numbers only. -/
theorem gridExponent_nonneg (hm : 0 < m) (hwhole : isWhole m q)
    (hk : k ≤ digitCount (wholePart m q)) : 0 ≤ gridExponent (.ofBinary m q) k := by
  have hlow : (10 : ℚ) ^ ((digitCount (wholePart m q) - 1 : ℕ) : ℤ) ≤ wholePart m q := by
    exact_mod_cast pow_digitCount_le (Numeral.wholePart_pos hwhole hm)
  have hhigh := (Ratio.magnitude_spec (Ratio.positive_ofBinary hm q)).2
  rw [Ratio.value_ofBinary, ← Numeral.cast_wholePart hwhole] at hhigh
  have := (zpow_lt_zpow_iff_right₀ (by norm_num : (1 : ℚ) < 10)).1 (hlow.trans_lt hhigh)
  unfold gridExponent
  omega

/-- The shortest decimal of a small whole number is the number. -/
theorem shortest_of_isWhole (hm : Canonical m q) (hwhole : isWhole m q)
    (hsmall : wholePart m q < wholeTextBound) : shortest m q = ⟨wholePart m q, 0⟩ := by
  obtain ⟨k, hfound, hfewer⟩ := exists_withDigits?_eq hm
  have hexponent := gridExponent_nonneg hm.pos hwhole (le_digitCount hm.pos hwhole hfewer)
  have hplaces : (shortest m q).places = 0 := by
    rcases mem_candidates.1 (mem_candidates_of_withDigits? hfound) with heq | heq <;> rw [heq]
    · exact Decimal.places_onGrid hexponent _
    · exact Decimal.places_onGrid hexponent _
  obtain ⟨w, hw⟩ : ∃ w, shortest m q = ⟨w, 0⟩ := ⟨(shortest m q).units, by rw [← hplaces]⟩
  have hrounds := roundsTo_shortest (q := q) hm.pos
  rw [hw] at hrounds
  rw [hw, eq_wholePart_of_roundsTo (exponent_nonpos hm hwhole hsmall) hwhole hrounds]

end Whole

section Text

variable {x : Float} {negative : Bool} {m : ℕ} {q : ℤ}

/-- On small whole numbers both ways of writing agree, as long as there is no sign to lose. -/
theorem toString_eq_plain (h : view x = .finite negative m q) (hwhole : isWhole m q)
    (hsmall : wholePart m q < wholeTextBound) (hm : m ≠ 0) :
    toString (signed negative (wholePart m q)) = plain x := by
  have hc := canonical_of_view h hm
  have hpos := Numeral.wholePart_pos hwhole hc.pos
  rw [← String.toList_inj, Numeral.toList_toString_signed, plain, String.toList_ofList,
    plainChars_of_finite h, decimalOf, if_neg hm, shortest_of_isWhole hc hwhole hsmall]
  simp [Numeral.text, hpos.ne']

theorem numberText_of_zero (h : view x = .finite negative 0 q) :
    numberText x = "0" ∧ plain x = if negative then "-0" else "0" := by
  obtain rfl := exponent_of_zero h
  constructor
  · rw [numberText, whole?_of_finite h]
    cases negative <;> rfl
  · rw [plain, plainChars_of_finite h]
    cases negative <;> rfl

theorem numberText_eq_plain_iff : numberText x = plain x ↔ x ≠ -0.0 := by
  rw [ne_eq, Numeral.eq_negativeZero_iff]
  cases h : view x with
  | nan => simp [numberText, whole?, h]
  | infinite negative => simp [numberText, whole?, h]
  | finite negative m q =>
    rcases eq_or_ne m 0 with rfl | hm
    · obtain rfl := exponent_of_zero h
      obtain ⟨htext, hplain⟩ := numberText_of_zero h
      rw [htext, hplain]
      cases negative <;> decide
    · have hne : View.finite negative m q ≠ .finite true 0 0 := by simp [hm]
      refine iff_of_true ?_ hne
      rw [numberText, whole?_of_finite h]
      by_cases hwhole : isWhole m q
      · simp only [hwhole, if_true, Numeral.natAbs_signed]
        split
        · next hsmall => exact toString_eq_plain h hwhole hsmall hm
        · rfl
      · simp only [hwhole]
        rfl

/-- The cast of a small whole number is the number. -/
theorem truncated_of_whole? {n : ℤ} (h : whole? x = some n) (hsmall : n.natAbs < wholeTextBound) :
    truncated x = n ∧ int64Min < n ∧ n < int64Max := by
  have hrange : int64Min < n ∧ n < int64Max := by
    unfold wholeTextBound at hsmall
    unfold int64Min int64Max
    omega
  refine ⟨?_, hrange⟩
  cases hview : view x with
  | nan => simp [whole?, hview] at h
  | infinite negative => simp [whole?, hview] at h
  | finite negative m q =>
    rw [whole?_of_finite hview, Option.ite_none_right_eq_some] at h
    obtain ⟨-, h⟩ := h
    obtain rfl := Option.some.inj h
    rw [truncated, hview]
    exact clampInt64_of_mem hrange.1.le hrange.2.le

end Text

/-- The text of a number is its plain one, except for negative zero; where it is that of an integer,
the cast to one loses nothing. The plain text of a finite number is its sign and its shortest
decimal, with no exponent and no needless zero behind the point. -/
theorem Atom.text_eq_plain (x : Float) :
    ((Atom.float x).text = plain x ↔ x ≠ -0.0) ∧
    (∀ n, whole? x = some n → n.natAbs < wholeTextBound →
      (Atom.float x).text = toString n ∧ truncated x = n ∧ int64Min < n ∧ n < int64Max) ∧
    ∀ negative m q, view x = .finite negative m q → m ≠ 0 →
      ∃ d : Decimal, d.IsShortest m q ∧ (d.places ≠ 0 → d.units % 10 ≠ 0) ∧
        (plain x).toList = signText negative ++ d.positional := by
  refine ⟨numberText_eq_plain_iff, fun n h hsmall => ⟨?_, truncated_of_whole? h hsmall⟩,
    fun negative m q h hm => ?_⟩
  · simp only [Atom.text, numberText, h, if_pos hsmall]
  · have hc := canonical_of_view h hm
    refine ⟨shortest m q, isShortest_shortest hc, units_shortest_of_places hc, ?_⟩
    rw [plain, String.toList_ofList, plainChars_of_finite h, decimalOf, if_neg hm]

end Patchbay
