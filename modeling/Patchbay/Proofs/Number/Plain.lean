import Mathlib
import Patchbay.Proofs.Number.Reading

/-!
The plain text of a float, taken apart: a sign, the digits of the whole part and one digit for each
place behind the point. Read as a decimal, these digits give the float again.
-/
namespace Patchbay.Number

section Digits

variable {n width : ℕ}

theorem isDigit_of_mem_digits {c : Char} (hc : c ∈ digits n) : c.isDigit :=
  Nat.isDigit_of_mem_toDigits (by decide) (by decide) hc

theorem ofDigitChars_digits (n : ℕ) : Nat.ofDigitChars 10 (digits n) 0 = n :=
  Nat.ofDigitChars_ten_toDigits

theorem exists_digitChar {d : Char} (hd : d.isDigit) : ∃ k < 10, d = k.digitChar := by
  obtain ⟨hlow, hhigh⟩ := Char.isDigit_iff_toNat.1 hd
  have hk : d.toNat - 48 < 10 := by
    have : '9'.toNat = 57 := rfl
    omega
  refine ⟨d.toNat - 48, hk, Char.toNat_inj.1 ?_⟩
  have : '0'.toNat = 48 := rfl
  rw [Nat.toNat_digitChar_of_lt_ten hk]
  omega

theorem ofDigitChars_concat {k : ℕ} (hk : k < 10) (ds : List Char) :
    Nat.ofDigitChars 10 (ds ++ [k.digitChar]) 0 = 10 * Nat.ofDigitChars 10 ds 0 + k := by
  rw [Nat.ofDigitChars_append, Nat.ofDigitChars_cons_digitChar_of_lt_ten hk, Nat.ofDigitChars_nil]

theorem ofDigitChars_dropWhile_zero (ds : List Char) :
    Nat.ofDigitChars 10 (ds.dropWhile (· = '0')) 0 = Nat.ofDigitChars 10 ds 0 := by
  induction ds with
  | nil => rfl
  | cons d ds ih =>
    by_cases hd : d = '0'
    · rw [hd, List.dropWhile_cons_of_pos (by simp), ih, Nat.ofDigitChars_cons]
      rfl
    · rw [List.dropWhile_cons_of_neg (by simpa using hd)]

/-- Digits without the zeros in front are those of the number that they stand for, or none. -/
theorem dropWhile_zero_eq {ds : List Char} (hds : ∀ d ∈ ds, d.isDigit) :
    ds.dropWhile (· = '0') =
      if Nat.ofDigitChars 10 ds 0 = 0 then [] else digits (Nat.ofDigitChars 10 ds 0) := by
  -- The number grows at its last digit.
  induction ds using List.reverseRecOn with
  | nil => rfl
  | append_singleton ds d ih =>
    obtain ⟨k, hk, rfl⟩ := exists_digitChar (hds d (by simp))
    have ih := ih fun e he => hds e (by simp [he])
    rw [List.dropWhile_append, ih, ofDigitChars_concat hk]
    by_cases hzero : Nat.ofDigitChars 10 ds 0 = 0
    · by_cases hlast : k = 0
      · simp [hzero, hlast]
      · simp [hzero, hlast, digits, Nat.toDigits_of_lt_base hk]
    · have hmore := Nat.toDigits_append_toDigits (b := 10) (by decide) (Nat.pos_of_ne_zero hzero) hk
      rw [Nat.toDigits_of_lt_base hk] at hmore
      simp [hzero, digits, hmore, Nat.toDigits_ne_nil]

/-- Digits begin with a zero only where there is no other. -/
theorem eq_nil_of_digits_eq {rest : List Char} (h : digits n = '0' :: rest) : rest = [] := by
  rcases eq_or_ne n 0 with rfl | hn
  · exact (List.cons.inj h).2.symm
  · have hdrop := dropWhile_zero_eq fun d => isDigit_of_mem_digits (n := n)
    rw [ofDigitChars_digits, if_neg hn, h, List.dropWhile_cons_of_pos (by simp)] at hdrop
    have hlength := (List.dropWhile_suffix (· = '0') (l := rest)).length_le
    rw [hdrop, List.length_cons] at hlength
    omega

theorem isDigit_of_mem_padded {c : Char} (hc : c ∈ padded width (digits n)) : c.isDigit := by
  rcases List.mem_append.1 hc with hc | hc
  · rw [List.eq_of_mem_replicate hc]
    rfl
  · exact isDigit_of_mem_digits hc

theorem length_padded (hw : 0 < width) (hn : n < tenTo width) :
    (padded width (digits n)).length = width := by
  have : (digits n).length ≤ width := (Nat.length_toDigits_le_iff (by decide) hw).2 hn
  rw [padded, List.length_append, List.length_replicate]
  omega

theorem ofDigitChars_padded (width n start : ℕ) (hw : 0 < width) (hn : n < tenTo width) :
    Nat.ofDigitChars 10 (padded width (digits n)) start = tenTo width * start + n := by
  rw [Nat.ofDigitChars_eq_ofDigitChars_zero, length_padded hw hn, padded, Nat.ofDigitChars_append,
    Nat.ofDigitChars_replicate_zero, Nat.mul_zero, ofDigitChars_digits]
  rfl

end Digits

namespace Decimal

variable {d : Decimal}

def wholeDigits (d : Decimal) : List Char := digits (d.units / tenTo d.places)

def fractionDigits (d : Decimal) : List Char :=
  if d.places = 0 then [] else padded d.places (digits (d.units % tenTo d.places))

theorem positional_eq (d : Decimal) :
    d.positional = d.wholeDigits ++ if d.places = 0 then [] else '.' :: d.fractionDigits := by
  unfold positional wholeDigits fractionDigits
  split
  · next h => rw [h, tenTo_zero, Nat.div_one, List.append_nil]
  · rfl

theorem isDigit_of_mem_wholeDigits {c : Char} (hc : c ∈ d.wholeDigits) : c.isDigit :=
  isDigit_of_mem_digits hc

theorem isDigit_of_mem_fractionDigits {c : Char} (hc : c ∈ d.fractionDigits) : c.isDigit := by
  unfold fractionDigits at hc
  split at hc
  · cases hc
  · exact isDigit_of_mem_padded hc

theorem length_fractionDigits (d : Decimal) : d.fractionDigits.length = d.places := by
  unfold fractionDigits
  split
  · next h => rw [h, List.length_nil]
  · next h => exact length_padded (Nat.pos_of_ne_zero h) (Nat.mod_lt _ (tenTo_pos _))

/-- All the digits together stand for the units. -/
theorem ofDigitChars_positional (d : Decimal) :
    Nat.ofDigitChars 10 (d.wholeDigits ++ d.fractionDigits) 0 = d.units := by
  rw [Nat.ofDigitChars_append, wholeDigits, ofDigitChars_digits]
  unfold fractionDigits
  split
  · next h => rw [h, tenTo_zero, Nat.div_one, Nat.ofDigitChars_nil]
  · next h =>
    rw [ofDigitChars_padded _ _ _ (Nat.pos_of_ne_zero h) (Nat.mod_lt _ (tenTo_pos _)),
      Nat.div_add_mod]

end Decimal

/-- The decimal that is written for a float. -/
def decimalOf (m : ℕ) (q : ℤ) : Decimal := if m = 0 then ⟨0, 0⟩ else shortest m q

section Plain

variable {x : Float} {negative : Bool} {m u p : ℕ} {q : ℤ}

theorem plainChars_of_finite (h : view x = .finite negative m q) :
    plainChars x = signText negative ++ (decimalOf m q).positional := by
  simp only [plainChars, h, decimalOf]
  split <;> rfl

theorem exponent_of_zero (h : view x = .finite negative 0 q) : q = 0 := by
  simp only [view] at h
  split at h
  all_goals simp only [reduceCtorEq, View.finite.injEq] at h
  · exact h.2.2.symm
  · next hm _ => exact absurd h.2.1 hm.ne'

/-- Zero is read as zero, whatever its places. -/
theorem view_ofScientific_zero (p : ℕ) :
    view (Float.ofScientific 0 true p) = .finite false 0 0 := by
  have hfast : ∀ e : Fin Float.exactlyRepresentablePowersOfTen.size,
      view ((0 : ℕ).toUInt64.toFloat / Float.exactlyRepresentablePowersOfTen[e]) =
        .finite false 0 0 := by
    decide +kernel
  unfold Float.ofScientific
  split
  · next h => exact hfast ⟨p, Nat.lt_succ_of_le h.2⟩
  · have hzero (e : ℤ) : Float.Model.ofScientific 0 e = .pack (.zero .positive) := by
      rw [Float.Model.ofScientific, Float.Model.UnpackedFloat.ofScientific, dif_pos rfl]
    simp only [hzero]
    rfl

/-- The decimal of a float is read as the float without its sign. -/
theorem view_ofScientific_decimalOf (h : view x = .finite negative m q)
    (hvalue : (u : ℚ) / 10 ^ p = (decimalOf m q).value) :
    view (Float.ofScientific u true p) = .finite false m q := by
  rcases eq_or_ne m 0 with rfl | hm
  · have hu : (u : ℚ) = 0 := by
      rw [decimalOf, if_pos rfl, Decimal.value, Nat.cast_zero, zero_div] at hvalue
      simpa using hvalue
    rw [exponent_of_zero h, Nat.cast_eq_zero.1 hu]
    exact view_ofScientific_zero p
  · rw [decimalOf, if_neg hm] at hvalue
    have hc := canonical_of_view h hm
    exact view_ofScientific_of_roundsTo (roundsTo_shortest hc.pos) hc hvalue

/-- The value of a float and its sign are the float. -/
theorem signed_eq_of_view {y : Float} (h : view x = .finite negative m q)
    (hy : view y = .finite false m q) : (if negative then -y else y) = x := by
  apply view_injective
  cases negative with
  | false => rw [h]; exact hy
  | true => rw [h]; exact view_neg_of_finite hy

end Plain

theorem view_infinity (negative : Bool) :
    view (if negative then -(1 / 0) else 1 / 0) = .infinite negative := by
  cases negative <;> decide +kernel

theorem view_notANumber : view (0 / 0) = .nan := by decide +kernel

end Patchbay.Number
