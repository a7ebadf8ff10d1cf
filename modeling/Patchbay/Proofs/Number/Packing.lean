import Mathlib
import Patchbay.Number.Shortest

/-!
Floats and their bits. A float is packed from a sign, a mantissa and an exponent, and nothing is
lost on either way between the bits and these three. So a float is determined by its view, and each
mantissa and exponent of the proper form belong to a float.
-/
namespace Patchbay.Number

open Float.Model Float.Model.UnpackedFloat

section Components

variable {spec : Format}

theorem ofBitVec_toBitVec (s : Sign) : Sign.ofBitVec s.toBitVec = s := by cases s <;> rfl

theorem toBitVec_ofBitVec (b : BitVec 1) : (Sign.ofBitVec b).toBitVec = b := by
  revert b
  decide

theorem unpackSign_packComponents (s : Sign) (e : BitVec spec.exponentBits)
    (m : BitVec spec.mantissaBitsWithoutImplicit) :
    unpackSign (packComponents spec s e m) = s.toBitVec := by
  apply BitVec.eq_of_getLsbD_eq
  intro i hi
  obtain rfl : i = 0 := by omega
  simp [unpackSign, packComponents, BitVec.getLsbD_append, BitVec.getElem_append]

/-- The three components of some bits give the bits again. -/
theorem packComponents_unpack (b : BitVec spec.numBits) :
    packComponents spec (Sign.ofBitVec (unpackSign b)) (unpackExponent b) (unpackMantissa b) =
      b := by
  have hm := spec.hm
  have he := spec.he
  apply BitVec.eq_of_getLsbD_eq
  intro i (hi : i < 1 + spec.exponentBits + spec.mantissaBitsWithoutImplicit)
  simp only [packComponents, toBitVec_ofBitVec, unpackSign, unpackExponent, unpackMantissa,
    BitVec.getLsbD_append, BitVec.getLsbD_cast, BitVec.getLsbD_extractLsb]
  generalize spec.mantissaBitsWithoutImplicit = p at *
  generalize spec.exponentBits = w at *
  split
  · simp
    omega
  · split
    · have hi' : p + (i - p) = i := by omega
      simp [hi']
      omega
    · have hi' : p + w + (i - p - w) = i := by omega
      simp [hi']
      omega

end Components

/-- A mantissa with an exponent in the one form in which a float holds them: all places of the
mantissa are taken, unless the exponent is the least. -/
structure Canonical (m : Nat) (q : Int) : Prop where
  pos : 0 < m
  lt : m < 2 ^ 53
  ge : -1074 ≤ q
  le : q ≤ 971
  full : q = -1074 ∨ 2 ^ 52 ≤ m

theorem toNat_implicit (m : BitVec 52) : (1#1 ++ m).toNat = 2 ^ 52 + m.toNat := by
  rw [BitVec.toNat_append, ← Nat.shiftLeft_add_eq_or_of_lt m.isLt]
  simp [Nat.shiftLeft_eq]

theorem log2_full {m : Nat} (hlt : m < 2 ^ 53) (hfull : 2 ^ 52 ≤ m) : m.log2 = 52 :=
  (Nat.log2_eq_iff (by omega)).2 ⟨hfull, hlt⟩

section Packing

variable {s : Sign} {m : Nat} {q : Int}

theorem pack_of_full (h : Canonical m q) (hfull : 2 ^ 52 ≤ m) :
    UnpackedFloat.pack .binary64 (.finite s m q h.pos) =
      packComponents .binary64 s (BitVec.ofNat 11 (q + 1075).toNat) (BitVec.ofNat 52 m) := by
  have hge := h.ge
  have hle := h.le
  have hq : q + (Format.binary64.exponentBias : Int) + (52 : Nat) = q + 1075 := by
    simp only [Format.exponentBias]
    omega
  simp only [UnpackedFloat.pack, hq, log2_full h.lt hfull]
  rw [if_neg (show ¬2 ^ 11 ≤ (q + 1075).toNat + 1 by omega)]
  exact if_pos rfl

theorem pack_of_not_full (h : Canonical m q) (hm : m < 2 ^ 52) :
    UnpackedFloat.pack .binary64 (.finite s m q h.pos) =
      packComponents .binary64 s 0#11 (BitVec.ofNat 52 m) := by
  obtain rfl : q = -1074 := h.full.resolve_right (by omega)
  have hlog : m.log2 < 52 := (Nat.log2_lt h.pos.ne').2 hm
  simp only [UnpackedFloat.pack]
  rw [if_neg (by decide)]
  exact if_neg (show ¬m.log2 + 1 = 53 by omega)

theorem unpack_pack (h : Canonical m q) :
    UnpackedFloat.unpack .binary64 (UnpackedFloat.pack .binary64 (.finite s m q h.pos)) =
      .finite s m q h.pos := by
  have hpos := h.pos
  have hlt := h.lt
  have hge := h.ge
  have hle := h.le
  rcases Nat.lt_or_ge m (2 ^ 52) with hm | hm
  · obtain rfl : q = -1074 := h.full.resolve_right (by omega)
    have hmant : (BitVec.ofNat 52 m).toNat = m := by
      rw [BitVec.toNat_ofNat]
      omega
    have hne : BitVec.ofNat 52 m ≠ 0#52 := fun hzero => by
      rw [hzero] at hmant
      exact hpos.ne hmant
    rw [pack_of_not_full h hm]
    simp only [UnpackedFloat.unpack, unpackSign_packComponents, unpackExponent_packComponents,
      unpackMantissa_packComponents, ofBitVec_toBitVec]
    rw [if_neg (by decide), if_pos trivial, dif_neg hne]
    congr 1
  · have hexp : (BitVec.ofNat 11 (q + 1075).toNat).toNat = (q + 1075).toNat := by
      rw [BitVec.toNat_ofNat]
      omega
    have hmant : 2 ^ 52 + (BitVec.ofNat 52 m).toNat = m := by
      rw [BitVec.toNat_ofNat]
      omega
    have hne : BitVec.ofNat 11 (q + 1075).toNat ≠ -1#11 := fun hmax => by
      rw [hmax] at hexp
      have : (-1#11).toNat = 2047 := rfl
      omega
    have hne' : BitVec.ofNat 11 (q + 1075).toNat ≠ 0#11 := fun hzero => by
      rw [hzero] at hexp
      have : (0#11).toNat = 0 := rfl
      omega
    rw [pack_of_full h hm]
    simp only [UnpackedFloat.unpack, unpackSign_packComponents, unpackExponent_packComponents,
      unpackMantissa_packComponents, ofBitVec_toBitVec, toNat_implicit]
    rw [if_neg hne, if_neg hne']
    congr 1
    rw [hexp]
    simp only [Format.exponentBias]
    omega

end Packing

section Unpacking

theorem canonical_of_exponent_zero {e : BitVec 11} {v : BitVec 52} (he : e = 0#11)
    (hv : v ≠ 0#52) : Canonical v.toNat ((e.toNat : Int) - 1075 + 1) := by
  have hpos : v.toNat ≠ 0 := fun hzero => hv (BitVec.eq_of_toNat_eq hzero)
  have hmin : (e.toNat : Int) - 1075 + 1 = -1074 := by simp [he]
  exact ⟨Nat.pos_of_ne_zero hpos, by omega, by omega, by omega, .inl hmin⟩

theorem canonical_of_exponent {e : BitVec 11} (hmax : e ≠ -1#11) (hzero : e ≠ 0#11)
    (v : BitVec 52) : Canonical (1#1 ++ v).toNat ((e.toNat : Int) - 1075) := by
  have hmax' : e.toNat ≠ 2047 := fun h => hmax (BitVec.eq_of_toNat_eq h)
  have hzero' : e.toNat ≠ 0 := fun h => hzero (BitVec.eq_of_toNat_eq h)
  rw [toNat_implicit]
  exact ⟨by omega, by omega, by omega, by omega, .inr (by omega)⟩

theorem exponentBias_add (n : Int) :
    n - ((Format.binary64.exponentBias : Int) + (52 : Nat)) = n - 1075 := by
  simp only [Format.exponentBias]
  omega

theorem canonical_of_unpack {b : BitVec 64} {s : Sign} {m : Nat} {q : Int} {hm : 0 < m}
    (h : UnpackedFloat.unpack .binary64 b = .finite s m q hm) : Canonical m q := by
  simp only [UnpackedFloat.unpack, exponentBias_add] at h
  repeat' split at h
  all_goals cases h
  · next hzero hv => exact canonical_of_exponent_zero hzero hv
  · next hmax hzero => exact canonical_of_exponent hmax hzero _

/-- Bits that are valid are packed from what they unpack to. -/
theorem pack_unpack {b : BitVec 64} (h : Format.binary64.Valid b) :
    UnpackedFloat.pack .binary64 (UnpackedFloat.unpack .binary64 b) = b := by
  have hb := @packComponents_unpack .binary64 b
  simp only [UnpackedFloat.unpack, exponentBias_add]
  split
  next hmax =>
    split
    next hv =>
      rw [hmax, hv] at hb
      exact hb
    next hv => exact (h.eq_packedNaN hmax hv).symm
  next hmax =>
    split
    next hzero =>
      split
      next hv =>
        rw [hzero, hv] at hb
        exact hb
      next hv =>
        rw [hzero] at hb
        rw [pack_of_not_full (canonical_of_exponent_zero hzero hv) (BitVec.isLt _)]
        simpa using hb
    next hzero =>
      have hfull (v : BitVec 52) : 2 ^ 52 ≤ (1#1 ++ v).toNat := by
        rw [toNat_implicit]
        omega
      have hrest (v : BitVec 52) : BitVec.ofNat 52 (1#1 ++ v).toNat = v := by
        apply BitVec.eq_of_toNat_eq
        rw [toNat_implicit, BitVec.toNat_ofNat]
        omega
      rw [pack_of_full (canonical_of_exponent hmax hzero _) (hfull _), hrest]
      simpa using hb

end Unpacking

/-- A float is packed from what it unpacks to. -/
theorem pack_unpack_toModel (x : Float) : Float.Model.pack x.toModel.unpack = x.toModel := by
  obtain ⟨⟨bits, valid⟩⟩ := x
  simp only [Float.Model.unpack, Float.Model.pack, pack_unpack valid]

theorem unpack_injective {x y : Float} (h : x.toModel.unpack = y.toModel.unpack) : x = y := by
  have hmodel : x.toModel = y.toModel := by
    rw [← pack_unpack_toModel x, ← pack_unpack_toModel y, h]
  cases x
  cases y
  exact congrArg Float.ofModel hmodel

theorem isNegative_injective {s s' : Sign} (h : isNegative s = isNegative s') : s = s' := by
  cases s <;> cases s' <;> first | rfl | cases h

/-- The view shows all that there is to a float. -/
theorem view_injective {x y : Float} (h : view x = view y) : x = y := by
  apply unpack_injective
  simp only [view] at h
  split at h <;> split at h
  all_goals simp only [reduceCtorEq, View.infinite.injEq, View.finite.injEq] at h
  all_goals grind [isNegative_injective]

theorem unpack_ofModel_pack {m : Nat} {q : Int} (h : Canonical m q) (s : Sign) :
    (Float.ofModel (.pack (.finite s m q h.pos))).toModel.unpack = .finite s m q h.pos :=
  unpack_pack h

theorem view_of_unpack {x : Float} {s : Sign} {m : Nat} {q : Int} {hm : 0 < m}
    (h : x.toModel.unpack = .finite s m q hm) : view x = .finite (isNegative s) m q := by
  rw [view, h]

theorem canonical_of_view {x : Float} {negative : Bool} {m : Nat} {q : Int}
    (h : view x = .finite negative m q) (hm : m ≠ 0) : Canonical m q := by
  simp only [view] at h
  split at h
  all_goals cases h
  · exact absurd rfl hm
  · next hx => exact canonical_of_unpack hx

theorem isNegative_neg (s : Sign) : isNegative (-s) = !isNegative s := by cases s <;> rfl

/-- Negation changes the sign and nothing else. -/
theorem view_neg_of_finite {x : Float} {negative : Bool} {m : Nat} {q : Int}
    (h : view x = .finite negative m q) : view (-x) = .finite (!negative) m q := by
  have hneg : (-x).toModel = .pack x.toModel.unpack.neg := rfl
  simp only [view] at h
  split at h
  all_goals cases h
  · next s hx =>
    rw [view, hneg, hx, ← isNegative_neg]
    cases s <;> rfl
  · next s hm hx =>
    rw [← isNegative_neg]
    apply view_of_unpack
    rw [hneg, hx]
    exact unpack_pack (canonical_of_unpack hx)

end Patchbay.Number
