import Mathlib
import Patchbay.Proofs.Code.Numeral

/-!
Comparison of floats, and floats cut toward zero. Floats are compared by exponent and mantissa; as
these are kept in one form only, that is the order of the exact values, with the infinities at the
ends. A float that is no number has no place in the order.
-/
namespace Patchbay.Number

open Float.Model Float.Model.UnpackedFloat

/-- The exact value of a finite float. -/
def exactValue (negative : Bool) (m : ℕ) (q : ℤ) : ℚ :=
  if negative then -(m * 2 ^ q) else m * 2 ^ q

/-- The rational numbers with both ends of the line. -/
abbrev Line := WithBot (WithTop ℚ)

def Line.ofRat (v : ℚ) : Line := WithBot.some (WithTop.some v)

/-- Where a float stands on the line. -/
def place (x : Float) : Option Line :=
  match view x with
  | .nan => none
  | .infinite negative => some (if negative then ⊥ else ⊤)
  | .finite negative m q => some (.ofRat (exactValue negative m q))

section Order

variable {x y : Float} {m n : ℕ} {q e : ℤ} {a b : Line}

theorem mul_zpow_lt_of_lt (hm : Canonical m q) (hn : Canonical n e) (h : q < e) :
    (m : ℚ) * 2 ^ q < n * 2 ^ e := by
  have hlt : (m : ℚ) < 2 ^ 53 := by exact_mod_cast hm.lt
  have hfull : (2 : ℚ) ^ 52 ≤ n := by
    exact_mod_cast hn.full.resolve_left (by have := hm.ge; omega)
  have hstep : (2 : ℚ) ^ (q + 1) ≤ 2 ^ e := zpow_le_zpow_right₀ one_le_two (by omega)
  calc (m : ℚ) * 2 ^ q < 2 ^ 53 * 2 ^ q := mul_lt_mul_of_pos_right hlt (by positivity)
    _ = 2 ^ 52 * 2 ^ (q + 1) := by rw [zpow_add_one₀ two_ne_zero]; ring
    _ ≤ n * 2 ^ e := mul_le_mul hfull hstep (by positivity) (by positivity)

/-- The greater exponent wins, and with equal ones the greater mantissa. -/
theorem cmp_mul_zpow (hm : Canonical m q) (hn : Canonical n e) :
    cmp ((m : ℚ) * 2 ^ q) (n * 2 ^ e) = (compare q e).then (compare m n) := by
  rcases lt_trichotomy q e with h | rfl | h
  · rw [compare_lt_iff_lt.2 h, Ordering.lt_then, cmp_eq_lt_iff]
    exact mul_zpow_lt_of_lt hm hn h
  · have hscale : StrictMono fun w : ℕ => (w : ℚ) * 2 ^ q := fun v w hvw =>
      mul_lt_mul_of_pos_right (Nat.cast_lt.2 hvw) (by positivity)
    rw [compare_eq_iff_eq.2 rfl, Ordering.eq_then, ← cmp_eq_compare]
    exact hscale.cmp_map_eq m n
  · rw [compare_gt_iff_gt.2 h, Ordering.gt_then, cmp_eq_gt_iff]
    exact mul_zpow_lt_of_lt hn hm h

theorem Line.strictMono_ofRat : StrictMono Line.ofRat :=
  WithBot.coe_strictMono.comp WithTop.coe_strictMono

theorem cmp_ofRat (v w : ℚ) : cmp (Line.ofRat v) (.ofRat w) = cmp v w :=
  Line.strictMono_ofRat.cmp_map_eq v w

theorem cmp_neg (v w : ℚ) : cmp (-v) (-w) = (cmp v w).swap := by
  rw [cmp_swap]
  exact StrictAnti.cmp_map_eq (fun _ _ => neg_lt_neg) v w

theorem exactValue_pos (hm : 0 < m) (q : ℤ) : 0 < exactValue false m q := by
  have : (0 : ℚ) < m := by exact_mod_cast hm
  rw [exactValue, if_neg Bool.false_ne_true]
  positivity

theorem exactValue_neg (hm : 0 < m) (q : ℤ) : exactValue true m q < 0 :=
  neg_lt_zero.2 (exactValue_pos hm q)

theorem exactValue_zero (negative : Bool) : exactValue negative 0 0 = 0 := by
  cases negative <;> simp [exactValue]

theorem place_infinity {s : Sign} (h : x.toModel.unpack = .infinity s) :
    place x = some (if isNegative s then ⊥ else ⊤) := by
  simp only [place, view, h]

theorem place_zero {s : Sign} (h : x.toModel.unpack = .zero s) :
    place x = some (.ofRat 0) := by
  simp only [place, view, h, exactValue_zero]

theorem place_finite {s : Sign} {hm : 0 < m} (h : x.toModel.unpack = .finite s m q hm) :
    place x = some (.ofRat (exactValue (isNegative s) m q)) := by
  simp only [place, view, h]

/-- Finite floats are compared as their values. -/
theorem compare_finite (hm : Canonical m q) (hn : Canonical n e) (s t : Sign) :
    UnpackedFloat.compare (.finite s m q hm.pos) (.finite t n e hn.pos) =
      some (cmp (exactValue (isNegative s) m q) (exactValue (isNegative t) n e)) := by
  cases s <;> cases t
  · simp only [UnpackedFloat.compare, isNegative, exactValue, if_true, cmp_neg, cmp_mul_zpow hm hn]
  · exact congrArg some ((cmp_eq_lt_iff _ _).2 ((exactValue_neg hm.pos q).trans
      (exactValue_pos hn.pos e))).symm
  · exact congrArg some ((cmp_eq_gt_iff _ _).2 ((exactValue_neg hn.pos e).trans
      (exactValue_pos hm.pos q))).symm
  · exact congrArg some (cmp_mul_zpow hm hn).symm

theorem compare_zero_finite (hm : 0 < m) (s t : Sign) :
    UnpackedFloat.compare (.zero s) (.finite t m q hm) =
      some (cmp 0 (exactValue (isNegative t) m q)) := by
  cases t
  · exact congrArg some ((cmp_eq_gt_iff _ _).2 (exactValue_neg hm q)).symm
  · exact congrArg some ((cmp_eq_lt_iff _ _).2 (exactValue_pos hm q)).symm

theorem compare_finite_zero (hm : 0 < m) (s t : Sign) :
    UnpackedFloat.compare (.finite s m q hm) (.zero t) =
      some (cmp (exactValue (isNegative s) m q) 0) := by
  cases s
  · exact congrArg some ((cmp_eq_lt_iff _ _).2 (exactValue_neg hm q)).symm
  · exact congrArg some ((cmp_eq_gt_iff _ _).2 (exactValue_pos hm q)).symm

theorem cmp_infinity_ofRat (s : Sign) (v : ℚ) :
    cmp (if isNegative s then ⊥ else ⊤) (Line.ofRat v) =
      if isNegative s then .lt else .gt := by
  cases s
  · exact (cmp_eq_lt_iff _ _).2 (WithBot.bot_lt_coe _)
  · exact (cmp_eq_gt_iff _ _).2 (WithBot.coe_lt_coe.2 (WithTop.coe_lt_top v))

theorem cmp_ofRat_infinity (s : Sign) (v : ℚ) :
    cmp (Line.ofRat v) (if isNegative s then ⊥ else ⊤) =
      if isNegative s then .gt else .lt := by
  rw [← cmp_swap, cmp_infinity_ofRat]
  cases s <;> rfl

/-- Floats are compared as the places where they stand. -/
theorem compare_unpack (x y : Float) : x.toModel.unpack.compare y.toModel.unpack =
    (place x).bind fun a => (place y).map (cmp a) := by
  cases hx : x.toModel.unpack with
  | notANumber =>
    simp only [place, view, hx]
    rfl
  | infinity s =>
    rw [place_infinity hx, Option.bind_some]
    cases hy : y.toModel.unpack with
    | notANumber =>
      simp only [place, view, hy]
      cases s <;> rfl
    | infinity t =>
      rw [place_infinity hy]
      cases s <;> cases t <;> decide
    | zero t =>
      rw [place_zero hy, Option.map_some, cmp_infinity_ofRat]
      cases s <;> rfl
    | finite t n e hn =>
      rw [place_finite hy, Option.map_some, cmp_infinity_ofRat]
      cases s <;> rfl
  | zero s =>
    rw [place_zero hx, Option.bind_some]
    cases hy : y.toModel.unpack with
    | notANumber => simp only [place, view, hy]; rfl
    | infinity t =>
      rw [place_infinity hy, Option.map_some, cmp_ofRat_infinity]
      cases t <;> rfl
    | zero t => rw [place_zero hy, Option.map_some, cmp_self_eq_eq]; rfl
    | finite t n e hn => rw [place_finite hy, Option.map_some, cmp_ofRat, compare_zero_finite]
  | finite s m q hm =>
    rw [place_finite hx, Option.bind_some]
    cases hy : y.toModel.unpack with
    | notANumber => simp only [place, view, hy]; rfl
    | infinity t =>
      rw [place_infinity hy, Option.map_some, cmp_ofRat_infinity]
      cases t <;> rfl
    | zero t => rw [place_zero hy, Option.map_some, cmp_ofRat, compare_finite_zero]
    | finite t n e hn =>
      rw [place_finite hy, Option.map_some, cmp_ofRat]
      exact compare_finite (canonical_of_unpack hx) (canonical_of_unpack hy) s t

theorem lt_iff_place : x < y ↔ ∃ a ∈ place x, ∃ b ∈ place y, a < b := by
  have hlt : x < y ↔ (x.toModel.unpack.compare y.toModel.unpack == some .lt) = true :=
    decide_eq_true_iff
  simp [hlt, compare_unpack, Option.bind_eq_some_iff]

theorem le_iff_place : x ≤ y ↔ ∃ a ∈ place x, ∃ b ∈ place y, a ≤ b := by
  have hle : x ≤ y ↔ (x.toModel.unpack.compare y.toModel.unpack).any Ordering.isLE = true :=
    decide_eq_true_iff
  have hcmp (a b : Line) : (cmp a b).isLE = true ↔ a ≤ b := by
    rw [Ordering.isLE_iff_ne_gt, cmp_eq_gt_iff, not_lt]
  simp [hle, compare_unpack, Option.any_eq_true, Option.bind_eq_some_iff, hcmp]

theorem beq_iff_place : (x == y) = true ↔ ∃ a ∈ place x, a ∈ place y := by
  have hbeq : (x == y) = (x.toModel.unpack.compare y.toModel.unpack == some .eq) := rfl
  simp [hbeq, compare_unpack, Option.bind_eq_some_iff]

end Order

section Whole

variable {x y : Float} {negative : Bool} {m w : ℕ} {q n k : ℤ}

theorem whole?_of_finite (h : view x = .finite negative m q) : whole? x =
    if isWhole m q then some (signed negative (wholePart m q)) else none := by
  rw [whole?, h]

theorem cast_signed (negative : Bool) (w : ℕ) :
    (signed negative w : ℚ) = if negative then -(w : ℚ) else w := by
  cases negative <;> simp [signed]

theorem place_of_whole? (h : whole? x = some n) : place x = some (.ofRat n) := by
  cases hview : view x with
  | nan => simp [whole?, hview] at h
  | infinite negative => simp [whole?, hview] at h
  | finite negative m q =>
    rw [whole?_of_finite hview, Option.ite_none_right_eq_some] at h
    obtain ⟨hwhole, h⟩ := h
    rw [place, hview, ← Option.some.inj h, cast_signed, Numeral.cast_wholePart hwhole]
    rfl

/-- Whole numbers among the floats are compared as integers. -/
theorem le_iff_of_whole? (hx : whole? x = some n) (hy : whole? y = some k) : x ≤ y ↔ n ≤ k := by
  simp [le_iff_place, place_of_whole? hx, place_of_whole? hy, Line.strictMono_ofRat.le_iff_le]

theorem lt_iff_of_whole? (hx : whole? x = some n) (hy : whole? y = some k) : x < y ↔ n < k := by
  simp [lt_iff_place, place_of_whole? hx, place_of_whole? hy, Line.strictMono_ofRat.lt_iff_lt]

theorem beq_iff_of_whole? (hx : whole? x = some n) (hy : whole? y = some k) :
    (x == y) = true ↔ n = k := by
  simp [beq_iff_place, place_of_whole? hx, place_of_whole? hy,
    Line.strictMono_ofRat.injective.eq_iff, @eq_comm _ k]

theorem whole?_neg (h : whole? x = some n) : whole? (-x) = some (-n) := by
  cases hview : view x with
  | nan => simp [whole?, hview] at h
  | infinite negative => simp [whole?, hview] at h
  | finite negative m q =>
    rw [whole?_of_finite hview, Option.ite_none_right_eq_some] at h
    obtain ⟨hwhole, h⟩ := h
    rw [whole?_of_finite (view_neg_of_finite hview), if_pos hwhole, ← Option.some.inj h]
    cases negative <;> simp [signed]

theorem toFloat_zero : Numeral.toFloat (.decimal false ⟨0, 0⟩) = 0 :=
  view_injective ((view_ofScientific_zero 0).trans Numeral.view_zero.symm)

theorem whole?_zero : whole? 0 = some 0 := by
  rw [whole?_of_finite Numeral.view_zero]
  rfl

/-- The float cut toward zero, with its sign kept. -/
def cut (x : Float) : Float :=
  match view x with
  | .finite negative m q => Numeral.toFloat (.decimal negative ⟨wholePart m q, 0⟩)
  | _ => x

theorem cut_of_not_finite (h : ∀ negative m q, view x ≠ .finite negative m q) : cut x = x := by
  unfold cut
  split
  · next hview => exact absurd hview (h _ _ _)
  · rfl

/-- A mantissa that is cut at all loses at least a place. -/
theorem wholePart_lt (hm : m < 2 ^ 53) (hwhole : ¬isWhole m q) : wholePart m q < 2 ^ 53 := by
  have hq : q.toNat = 0 := by
    by_contra hq
    refine hwhole (decide_eq_true ?_)
    rw [show (-q).toNat = 0 by omega]
    rfl
  rw [wholePart, hq]
  exact (Nat.shiftRight_le _ _).trans_lt hm

theorem whole?_cut (h : view x = .finite negative m q) :
    whole? (cut x) = some (signed negative (wholePart m q)) := by
  have hcut : cut x = Numeral.toFloat (.decimal negative ⟨wholePart m q, 0⟩) := by rw [cut, h]
  by_cases hwhole : isWhole m q
  · have hsame : cut x = x :=
      hcut.trans (signed_eq_of_view h (Numeral.view_ofScientific_wholePart h hwhole))
    rw [hsame, whole?_of_finite h, if_pos hwhole]
  · have hm : m ≠ 0 := by
      rintro rfl
      exact hwhole (by simp [isWhole])
    have hpart := Numeral.whole?_toFloat (wholePart_lt (canonical_of_view h hm).lt hwhole)
    rw [hcut]
    cases negative with
    | false => exact hpart
    | true => exact whole?_neg hpart

end Whole

end Patchbay.Number
