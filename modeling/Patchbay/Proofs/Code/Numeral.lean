import Mathlib
import Patchbay.Code.Basic
import Patchbay.Proofs.Number.Plain
import Patchbay.Text.Blank

/-!
Numerals of the emitted language. A numeral is read exactly, as the value that its digits stand for,
and only then rounded to a float. So the literal of a float is read as the float, but for the sign
of zero, which literals do not show.
-/
namespace Patchbay

open Number

/-- The value of a number in the text of a program. -/
inductive Numeral where
  | nan
  | infinite (negative : Bool)
  | decimal (negative : Bool) (d : Decimal)
  deriving DecidableEq, Repr

namespace Numeral

/-- The float nearest to it. -/
def toFloat : Numeral → Float
  | nan => 0 / 0
  | infinite negative => if negative then -(1 / 0) else 1 / 0
  | decimal negative d =>
    let x := Float.ofScientific d.units true d.places
    if negative then -x else x

/-- A whole number without a sign. -/
def index? : Numeral → Option ℕ
  | decimal false ⟨n, 0⟩ => some n
  | _ => none

/-- Digits with at most one point among them, and no needless zero in front. -/
def ofDigits? (negative : Bool) (token : List Char) : Option Numeral :=
  let whole := token.takeWhile Char.isDigit
  let value := Nat.ofDigitChars 10
  if whole = [] ∨ (whole.head? = some '0' ∧ whole ≠ ['0']) then none
  else match token.drop whole.length with
    | [] => some (.decimal negative ⟨value whole 0, 0⟩)
    | c :: fraction =>
      if c = '.' ∧ fraction ≠ [] ∧ fraction.all Char.isDigit then
        some (.decimal negative ⟨value (whole ++ fraction) 0, fraction.length⟩)
      else none

/-- What stands behind the sign, if there is a sign. -/
def ofToken? (negative : Bool) (token : List Char) : Option Numeral :=
  if token = "NaN".toList then some .nan
  else if token = "Infinity".toList then some (.infinite negative)
  else ofDigits? negative token

/-- The characters that a name or a number goes on with. -/
def isTokenChar (c : Char) : Bool := Text.isWordChar c || c = '_' || c = '$' || c = '.'

/-- A numeral with all characters that it goes on with. -/
def read? (cs : List Char) : Option (Numeral × List Char) :=
  let (negative, rest) := match cs with
    | '-' :: rest => (true, rest)
    | cs => (false, cs)
  let token := rest.takeWhile isTokenChar
  (ofToken? negative token).map fun n => (n, rest.drop token.length)

/-- The float that a text stands for, if the text is a numeral. -/
def float? (text : String) : Option Float :=
  match read? text.toList with
  | some (n, []) => some n.toFloat
  | _ => none

/-- The text of a numeral. -/
def text : Numeral → List Char
  | nan => "NaN".toList
  | infinite negative => signText negative ++ "Infinity".toList
  | decimal negative d => signText negative ++ d.positional

/-- The value that the literal of a float is written for. -/
def ofFloat (x : Float) : Numeral :=
  match view x with
  | .nan => .nan
  | .infinite negative => .infinite negative
  | .finite negative m q =>
    let w := wholePart m q
    if isWhole m q ∧ w < wholeTextBound then .decimal (negative && w ≠ 0) ⟨w, 0⟩
    else .decimal negative (decimalOf m q)

section Text

variable {d : Decimal}

theorem takeWhile_positional (d : Decimal) :
    d.positional.takeWhile Char.isDigit = d.wholeDigits := by
  have hdigits : ∀ c ∈ d.wholeDigits, c.isDigit := fun _ => Decimal.isDigit_of_mem_wholeDigits
  rw [Decimal.positional_eq, List.takeWhile_append_of_pos hdigits]
  split
  · rw [List.takeWhile_nil, List.append_nil]
  · rw [List.takeWhile_cons_of_neg (by decide), List.append_nil]

theorem ofDigits?_positional (negative : Bool) (d : Decimal) :
    ofDigits? negative d.positional = some (.decimal negative d) := by
  -- Only zero itself begins with a zero.
  have hzero :
      ¬(d.wholeDigits = [] ∨ (d.wholeDigits.head? = some '0' ∧ d.wholeDigits ≠ ['0'])) := by
    rintro (hnil | ⟨hhead, hne⟩)
    · exact Nat.toDigits_ne_nil hnil
    · obtain ⟨rest, hrest⟩ := List.head?_eq_some_iff.1 hhead
      rw [hrest, eq_nil_of_digits_eq hrest] at hne
      exact hne rfl
  have hvalue := d.ofDigitChars_positional
  have hlength := d.length_fractionDigits
  simp only [ofDigits?, takeWhile_positional, if_neg hzero]
  rw [Decimal.positional_eq, List.drop_left]
  split
  · next hrest =>
    have hplaces : d.places = 0 := by
      by_contra hne
      rw [if_neg hne] at hrest
      cases hrest
    have hnil : d.fractionDigits = [] := List.length_eq_zero_iff.1 (hlength.trans hplaces)
    rw [hnil, List.append_nil] at hvalue
    rw [hvalue, ← hplaces]
  · next c fraction hrest =>
    have hplaces : d.places ≠ 0 := by
      intro heq
      rw [if_pos heq] at hrest
      cases hrest
    rw [if_neg hplaces] at hrest
    obtain ⟨rfl, rfl⟩ := List.cons.inj hrest
    have hne : d.fractionDigits ≠ [] := fun hnil => hplaces (by rw [← hlength, hnil]; rfl)
    have hall : d.fractionDigits.all Char.isDigit :=
      List.all_eq_true.2 fun _ => Decimal.isDigit_of_mem_fractionDigits
    rw [if_pos ⟨rfl, hne, hall⟩, hvalue, hlength]

theorem exists_positional_cons (d : Decimal) : ∃ c cs, d.positional = c :: cs ∧ c.isDigit := by
  have hne : d.wholeDigits ≠ [] := Nat.toDigits_ne_nil
  obtain ⟨c, cs, h⟩ := List.exists_cons_of_ne_nil hne
  refine ⟨c, _, by rw [Decimal.positional_eq, h, List.cons_append], ?_⟩
  exact Decimal.isDigit_of_mem_wholeDigits (by rw [h]; exact List.mem_cons_self)

theorem ofToken?_positional (negative : Bool) (d : Decimal) :
    ofToken? negative d.positional = some (.decimal negative d) := by
  obtain ⟨c, cs, h, hc⟩ := exists_positional_cons d
  have hne (s : String) (hs : s.toList.head?.any Char.isDigit = false) :
      d.positional ≠ s.toList := by
    intro heq
    rw [← heq, h, List.head?_cons, Option.any_some, hc] at hs
    cases hs
  rw [ofToken?, if_neg (hne _ (by decide)), if_neg (hne _ (by decide)), ofDigits?_positional]

theorem isTokenChar_of_isDigit {c : Char} (hc : c.isDigit) : isTokenChar c := by
  simp [isTokenChar, Text.isWordChar, Char.isAlphanum, hc]

theorem all_isTokenChar :
    "NaN".toList.all isTokenChar ∧ "Infinity".toList.all isTokenChar := by
  decide

theorem isTokenChar_of_mem_positional {c : Char} (hc : c ∈ d.positional) : isTokenChar c := by
  rw [Decimal.positional_eq] at hc
  rcases List.mem_append.1 hc with hc | hc
  · exact isTokenChar_of_isDigit (Decimal.isDigit_of_mem_wholeDigits hc)
  · split at hc
    · cases hc
    · rcases List.mem_cons.1 hc with rfl | hc
      · rfl
      · exact isTokenChar_of_isDigit (Decimal.isDigit_of_mem_fractionDigits hc)

theorem sign_or_token (n : Numeral) : ∀ c ∈ n.text, c = '-' ∨ isTokenChar c := by
  have hsign (negative : Bool) {token : List Char} (htoken : ∀ c ∈ token, isTokenChar c) :
      ∀ c ∈ signText negative ++ token, c = '-' ∨ isTokenChar c := by
    intro c hc
    cases negative with
    | true => exact (List.mem_cons.1 hc).imp_right (htoken c)
    | false => exact .inr (htoken c hc)
  cases n with
  | nan => exact hsign false (List.all_eq_true.1 all_isTokenChar.1)
  | infinite negative => exact hsign negative (List.all_eq_true.1 all_isTokenChar.2)
  | decimal negative d => exact hsign negative fun _ => isTokenChar_of_mem_positional

theorem text_ne_nil (n : Numeral) : n.text ≠ [] := by
  cases n with
  | nan => decide
  | infinite negative => exact List.append_ne_nil_of_right_ne_nil _ (by decide)
  | decimal negative d =>
    obtain ⟨c, cs, h, -⟩ := exists_positional_cons d
    exact List.append_ne_nil_of_right_ne_nil _ (by rw [h]; exact List.cons_ne_nil _ _)

/-- The text does not go on with the characters of a token. -/
def Ends (rest : List Char) : Prop := ∀ c ∈ rest.head?, isTokenChar c = false

theorem ends_nil : Ends [] := fun _ hc => by cases hc

theorem ends_cons {c : Char} {rest : List Char} (hc : isTokenChar c = false) :
    Ends (c :: rest) := by
  rintro _ ⟨⟩
  exact hc

theorem takeWhile_token {token rest : List Char} (htoken : ∀ c ∈ token, isTokenChar c)
    (hrest : Ends rest) : (token ++ rest).takeWhile isTokenChar = token := by
  rw [List.takeWhile_append_of_pos htoken]
  rcases rest with _ | ⟨c, rest⟩
  · exact List.append_nil _
  · rw [List.takeWhile_cons_of_neg (by simp [hrest c rfl]), List.append_nil]

/-- A sign and a token are read as what the token stands for with the sign. -/
theorem read?_token {negative : Bool} {token rest : List Char} {n : Numeral}
    (htoken : ∀ c ∈ token, isTokenChar c) (hread : ofToken? negative token = some n)
    (hrest : Ends rest) : read? (signText negative ++ (token ++ rest)) = some (n, rest) := by
  have htake := takeWhile_token htoken hrest
  cases negative with
  | true =>
    change (ofToken? true ((token ++ rest).takeWhile isTokenChar)).map
      (fun n => (n, (token ++ rest).drop ((token ++ rest).takeWhile isTokenChar).length)) = _
    rw [htake, hread, List.drop_left]
    rfl
  | false =>
    have hsign : ∀ r, token ++ rest ≠ '-' :: r := by
      intro r heq
      rw [heq] at htake
      rw [← htake] at hread
      cases hread
    change read? (token ++ rest) = _
    rw [read?.eq_def]
    split
    next heq =>
      split at heq
      · next htext => exact absurd htext (hsign _)
      · cases heq
        simp only [htake, hread, List.drop_left, Option.map_some]

theorem read?_text (n : Numeral) {rest : List Char} (hrest : Ends rest) :
    read? (n.text ++ rest) = some (n, rest) := by
  cases n with
  | nan =>
    change read? (signText false ++ ("NaN".toList ++ rest)) = _
    exact read?_token (List.all_eq_true.1 all_isTokenChar.1) rfl hrest
  | infinite negative =>
    rw [text, List.append_assoc]
    refine read?_token (List.all_eq_true.1 all_isTokenChar.2) ?_ hrest
    rw [ofToken?, if_neg (by decide), if_pos rfl]
  | decimal negative d =>
    rw [text, List.append_assoc]
    exact read?_token (fun _ => isTokenChar_of_mem_positional) (ofToken?_positional negative d)
      hrest

theorem float?_of_text {s : String} {n : Numeral} (h : s.toList = n.text) :
    float? s = some n.toFloat := by
  have hread := read?_text n ends_nil
  rw [List.append_nil] at hread
  rw [float?, h, hread]

example : read? "-0.50, 1".toList = some (.decimal true ⟨50, 2⟩, ", 1".toList) := by decide +kernel

end Text

section OfFloat

variable {x y : Float} {negative : Bool} {m w : ℕ} {q : ℤ}

/-- The text of an index is a numeral. -/
theorem toList_toString (n : ℕ) : (toString n).toList = (decimal false ⟨n, 0⟩).text :=
  String.toList_ofList

theorem toList_toString_signed (negative : Bool) (w : ℕ) :
    (toString (signed negative w)).toList = (decimal (negative && w ≠ 0) ⟨w, 0⟩).text := by
  cases negative with
  | false => exact toList_toString w
  | true =>
    cases w with
    | zero => rfl
    | succ w =>
      change ("-" ++ toString (w + 1)).toList = _
      rw [String.toList_append, toList_toString]
      rfl

theorem natAbs_signed (negative : Bool) (w : ℕ) : (signed negative w).natAbs = w := by
  cases negative <;> simp [signed]

/-- The literal of a float is the text of its numeral. -/
theorem toList_numberLiteral (x : Float) : (numberLiteral x).toList = (ofFloat x).text := by
  cases h : view x with
  | nan => rw [numberLiteral, ofFloat, h]; rfl
  | infinite negative =>
    simp only [numberLiteral, ofFloat, h]
    cases negative <;> rfl
  | finite negative m q =>
    have hplain : (plain x).toList = (decimal negative (decimalOf m q)).text := by
      rw [plain, String.toList_ofList, plainChars_of_finite h]
      rfl
    simp only [numberLiteral, numberText, whole?, ofFloat, h]
    by_cases hwhole : isWhole m q
    · simp only [hwhole, if_true, natAbs_signed, true_and]
      split
      · exact toList_toString_signed negative _
      · exact hplain
    · simp only [hwhole]
      exact hplain

/-- A float without a fractional part is its whole part. -/
theorem cast_wholePart (h : isWhole m q) : (wholePart m q : ℚ) = m * 2 ^ q := by
  have hm : m >>> (-q).toNat <<< (-q).toNat = m := of_decide_eq_true h
  rcases le_total 0 q with hq | hq
  · obtain ⟨k, rfl⟩ := Int.eq_ofNat_of_zero_le hq
    have hneg : (-(k : ℤ)).toNat = 0 := by omega
    rw [wholePart, hneg, Nat.shiftRight_zero, Int.toNat_natCast, Nat.shiftLeft_eq, zpow_natCast]
    push_cast
    rfl
  · obtain ⟨k, hk⟩ := Int.eq_ofNat_of_zero_le (neg_nonneg.2 hq)
    have hzero : q.toNat = 0 := by omega
    rw [hk, Int.toNat_natCast, Nat.shiftLeft_eq] at hm
    have hcast : ((m >>> k : ℕ) : ℚ) * 2 ^ k = m := by exact_mod_cast hm
    rw [wholePart, hzero, Nat.shiftLeft_zero, hk, Int.toNat_natCast, ← hcast,
      show q = -(k : ℤ) by omega, zpow_neg, zpow_natCast]
    field_simp

theorem wholePart_pos (h : isWhole m q) (hm : 0 < m) : 0 < wholePart m q := by
  have hm' : (0 : ℚ) < m := by exact_mod_cast hm
  have : (0 : ℚ) < wholePart m q := by
    rw [cast_wholePart h]
    positivity
  exact_mod_cast this

/-- The digits of a whole number round to it. -/
theorem roundsTo_wholePart (hm : 0 < m) (hwhole : isWhole m q) :
    Decimal.RoundsTo ⟨wholePart m q, 0⟩ m q := by
  refine Decimal.roundsTo_of_value hm ?_
  rw [Decimal.value, pow_zero, div_one, cast_wholePart hwhole]

/-- The digits of a whole number are read as the number. -/
theorem view_ofScientific_wholePart (h : view x = .finite negative m q) (hwhole : isWhole m q) :
    view (Float.ofScientific (wholePart m q) true 0) = .finite false m q := by
  rcases eq_or_ne m 0 with rfl | hm
  · rw [exponent_of_zero h]
    exact view_ofScientific_zero 0
  · have hc := canonical_of_view h hm
    exact view_ofScientific_of_roundsTo (roundsTo_wholePart hc.pos hwhole) hc rfl

theorem ofFloat_of_zero (h : view x = .finite negative 0 q) :
    ofFloat x = .decimal false ⟨0, 0⟩ := by
  simp [ofFloat, h, exponent_of_zero h, isWhole, wholePart, wholeTextBound]

theorem view_zero : view 0 = .finite false 0 0 := by decide +kernel

/-- A float with the sign of zero left out. -/
def signless (x : Float) : Float :=
  match view x with
  | .finite _ 0 _ => 0
  | _ => x

theorem signless_of_zero (h : view x = .finite negative 0 q) : signless x = 0 := by
  simp only [signless, h]

theorem signless_of_ne_zero (h : view x = .finite negative m q) (hm : m ≠ 0) : signless x = x := by
  rw [signless, h]
  cases m with
  | zero => exact absurd rfl hm
  | succ m => rfl

/-- The numeral of a float is rounded to the float, with zero left without a sign. -/
theorem toFloat_ofFloat (x : Float) : (ofFloat x).toFloat = signless x := by
  cases h : view x with
  | nan =>
    rw [ofFloat, signless, h]
    exact view_injective (view_notANumber.trans h.symm)
  | infinite negative =>
    rw [ofFloat, signless, h]
    exact view_injective ((view_infinity negative).trans h.symm)
  | finite negative m q =>
    have hplain : toFloat (.decimal negative (decimalOf m q)) = x :=
      signed_eq_of_view h (view_ofScientific_decimalOf h rfl)
    have hwhole (hw : isWhole m q) : toFloat (.decimal negative ⟨wholePart m q, 0⟩) = x :=
      signed_eq_of_view h (view_ofScientific_wholePart h hw)
    rcases eq_or_ne m 0 with rfl | hm
    · rw [ofFloat_of_zero h, signless_of_zero h]
      exact view_injective ((view_ofScientific_zero 0).trans view_zero.symm)
    · rw [signless_of_ne_zero h hm]
      simp only [ofFloat, h]
      split
      · next hw =>
        have hpos := wholePart_pos hw.1 (Nat.pos_of_ne_zero hm)
        rw [decide_eq_true hpos.ne', Bool.and_true]
        exact hwhole hw.1
      · exact hplain

/-- The literal of zero does not show the sign. -/
theorem ofFloat_signless (x : Float) : ofFloat (signless x) = ofFloat x := by
  cases h : view x with
  | nan => simp only [signless, h]
  | infinite negative => simp only [signless, h]
  | finite negative m q =>
    rcases eq_or_ne m 0 with rfl | hm
    · rw [signless_of_zero h, ofFloat_of_zero h, ofFloat_of_zero view_zero]
    · rw [signless_of_ne_zero h hm]

theorem numberLiteral_signless (x : Float) : numberLiteral (signless x) = numberLiteral x := by
  rw [← String.toList_inj, toList_numberLiteral, toList_numberLiteral, ofFloat_signless]

/-- The literal of a float stands for the float. -/
theorem float?_numberLiteral (x : Float) : float? (numberLiteral x) = some (signless x) := by
  rw [float?_of_text (toList_numberLiteral x), toFloat_ofFloat]

end OfFloat

section Index

variable {n : ℕ}

theorem whole?_toFloat (hn : n < 2 ^ 53) :
    whole? (toFloat (.decimal false ⟨n, 0⟩)) = some (n : ℤ) := by
  have htoFloat : toFloat (.decimal false ⟨n, 0⟩) = Float.ofScientific n true 0 := rfl
  rcases eq_or_ne n 0 with rfl | hne
  · simp only [htoFloat, whole?, view_ofScientific_zero]
    rfl
  · have hpos : 0 < n := Nat.pos_of_ne_zero hne
    have hlog : n.log2 < 53 := (Nat.log2_lt hne).2 hn
    have hc := canonical_shiftLeft hpos hn
    have hvalue : (n : ℚ) / 10 ^ 0 * 2 ^ (-((n.log2 : ℤ) - 52)) = (n <<< (52 - n.log2) : ℕ) := by
      rw [pow_zero, div_one, Nat.shiftLeft_eq,
        show -((n.log2 : ℤ) - 52) = (52 - n.log2 : ℕ) by omega, zpow_natCast]
      push_cast
      rfl
    have hview := view_ofScientific hpos hc (hvalue ▸ Between.self hc.pos _)
    have hplaces : (-((n.log2 : ℤ) - 52)).toNat = 52 - n.log2 := by omega
    have hzero : ((n.log2 : ℤ) - 52).toNat = 0 := by omega
    have hwhole : isWhole (n <<< (52 - n.log2)) (n.log2 - 52) := by
      simp only [isWhole, hplaces, Nat.shiftLeft_shiftRight, decide_true]
    have hpart : wholePart (n <<< (52 - n.log2)) (n.log2 - 52) = n := by
      rw [wholePart, hzero, hplaces, Nat.shiftLeft_zero, Nat.shiftLeft_shiftRight]
    simp only [htoFloat, whole?, hview, hwhole, hpart, if_true, signed, Bool.false_eq_true,
      if_false]

/-- Whole numbers below `2 ^ 53` are rounded to no other number. -/
theorem whole?_float?_toString (hn : n < 2 ^ 53) :
    (float? (toString n)).bind whole? = some (n : ℤ) := by
  rw [float?_of_text (toList_toString n), Option.bind_some, whole?_toFloat hn]

end Index

end Numeral

end Patchbay
