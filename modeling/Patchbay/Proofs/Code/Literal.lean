import Mathlib
import Patchbay.Node.State
import Patchbay.Proofs.Code.Numeral

/-!
Literals of floats, read again. The digits that are written round to the float, on the short way for
whole numbers as on the general one, and the sign stands in front. Negative zero alone is written
without its sign, so it is the one float that its literal does not stand for.
-/
namespace Patchbay

open Number

namespace Numeral

variable {x : Float} {negative : Bool} {m : ℕ} {q : ℤ}

theorem view_negativeZero : view (-0.0) = .finite true 0 0 := by decide +kernel

theorem eq_negativeZero_iff : x = -0.0 ↔ view x = .finite true 0 0 := by
  rw [← view_negativeZero]
  exact ⟨congrArg view, fun h => view_injective h⟩

/-- Only negative zero has a sign to lose. -/
theorem signless_eq_self_iff : signless x = x ↔ x ≠ -0.0 := by
  rw [ne_eq, eq_negativeZero_iff]
  cases h : view x with
  | nan => simp [signless, h]
  | infinite negative => simp [signless, h]
  | finite negative m q =>
    rcases eq_or_ne m 0 with rfl | hm
    · obtain rfl := exponent_of_zero h
      rw [signless_of_zero h]
      constructor
      · intro hx hview
        rw [← hx, view_zero] at h
        rw [← h] at hview
        cases hview
      · intro hview
        cases negative with
        | false => exact view_injective (view_zero.trans h.symm)
        | true => exact absurd rfl hview
    · simp [signless_of_ne_zero h hm, hm]

/-- The decimal that is written for a float rounds to it. -/
theorem exists_ofFloat (h : view x = .finite negative m q) (hm : m ≠ 0) :
    ∃ d : Decimal, ofFloat x = .decimal negative d ∧ d.RoundsTo m q := by
  have hc := canonical_of_view h hm
  simp only [ofFloat, h]
  split
  · next hw =>
    have hpos := wholePart_pos hw.1 hc.pos
    exact ⟨⟨wholePart m q, 0⟩, by simp [hpos.ne'], roundsTo_wholePart hc.pos hw.1⟩
  · rw [decimalOf, if_neg hm]
    exact ⟨_, rfl, roundsTo_shortest hc.pos⟩

end Numeral

/-- Every float but negative zero is what its literal is read as, be it written in a template or as
the initial value of a state variable; negative zero is read as zero. The digits of a finite literal
stand, without any rounding, for a value between the midpoints around the float. -/
theorem numberLiteral_denotes (x : Float) :
    (Numeral.float? (numberLiteral x) = some x ↔ x ≠ -0.0) ∧
    Numeral.float? (numberLiteral (-0.0)) = some 0 ∧
    (∀ settings, (StartValue.number x).render settings = numberLiteral x) ∧
    ∀ negative m q, view x = .finite negative m q → m ≠ 0 →
      ∃ d : Decimal, d.RoundsTo m q ∧
        Numeral.read? (numberLiteral x).toList = some (.decimal negative d, []) := by
  refine ⟨?_, ?_, fun settings => rfl, fun negative m q h hm => ?_⟩
  · rw [Numeral.float?_numberLiteral, Option.some_inj]
    exact Numeral.signless_eq_self_iff
  · rw [Numeral.float?_numberLiteral, Numeral.signless_of_zero Numeral.view_negativeZero]
  · obtain ⟨d, hd, hrounds⟩ := Numeral.exists_ofFloat h hm
    have hread := Numeral.read?_text (Numeral.ofFloat x) Numeral.ends_nil
    rw [List.append_nil, ← Numeral.toList_numberLiteral, hd] at hread
    exact ⟨d, hrounds, hread⟩

/-- The sign of zero is lost. -/
theorem numberLiteral_negativeZero : numberLiteral (-0.0) = "0" ∧
    Numeral.float? (numberLiteral (-0.0)) ≠ some (-0.0) := by
  constructor
  · decide +kernel
  · rw [Numeral.float?_numberLiteral, ne_eq, Option.some_inj, Numeral.signless_eq_self_iff]
    exact not_not.2 rfl

end Patchbay
