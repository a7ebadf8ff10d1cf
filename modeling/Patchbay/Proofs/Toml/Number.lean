import Mathlib
import Patchbay.Proofs.Number.Plain
import Patchbay.Toml.Document
import Patchbay.Toml.Writer

/-!
Numbers that were written are read again: whole numbers, and every float, since the digits written
for a float determine it.
-/
namespace Patchbay.Toml

open Number

section Digits

variable {ds fs rest : List Char} {c : Char}

theorem ne_of_isDigit {d : Char} (hc : c.isDigit) (hd : d.isDigit = false) : c ≠ d := by
  rintro rfl
  rw [hc] at hd
  cases hd

theorem isGrouped_of_digits (hds : ∀ d ∈ ds, d.isDigit) (hne : ds ≠ []) : isGrouped ds := by
  induction ds with
  | nil => exact absurd rfl hne
  | cons d ds ih =>
    have hd : d ≠ '_' := ne_of_isDigit (hds d (by simp)) rfl
    cases ds with
    | nil => simpa [isGrouped] using hd
    | cons e ds =>
      have he : e ≠ '_' := ne_of_isDigit (hds e (by simp)) rfl
      rw [isGrouped, if_neg he, ih (fun d hd => hds d (List.mem_cons_of_mem _ hd)) (by simp)]
      simpa using hd

/-- Digits are read up to the first character that is none. -/
theorem digitRun_append (hds : ∀ d ∈ ds, d.isDigit) (hne : ds ≠ []) (hc : c.isDigit = false)
    (hc' : c ≠ '_') : digitRun Char.isDigit (ds ++ c :: rest) = some (ds, c :: rest) := by
  have hrun : (ds ++ c :: rest).takeWhile (fun d => d.isDigit || d = '_') = ds := by
    rw [List.takeWhile_append_of_pos fun d hd => by rw [hds d hd, Bool.true_or],
      List.takeWhile_cons_of_neg (by simp [hc, hc']), List.append_nil]
  have hfilter : ds.filter (· ≠ '_') = ds :=
    List.filter_eq_self.2 fun d hd => by simpa using ne_of_isDigit (hds d hd) rfl
  simp only [digitRun, hrun, isGrouped_of_digits hds hne, if_true, hfilter, List.drop_left]

theorem wholeRun_append (n : ℕ) (hc : c.isDigit = false) (hc' : c ≠ '_') :
    wholeRun (digits n ++ c :: rest) = some (digits n, c :: rest) := by
  rw [wholeRun, digitRun_append (fun _ => isDigit_of_mem_digits) Nat.toDigits_ne_nil hc hc']
  split
  · next h =>
    simp only [Option.some.injEq, Prod.mk.injEq] at h
    cases eq_nil_of_digits_eq h.1
  · rfl

theorem beginsMoment_cons (hc : c.isDigit = false) : beginsMoment (c :: rest) = false := by
  rcases rest with _ | ⟨a, _ | ⟨b, rest⟩⟩ <;> simp [beginsMoment, hc]

theorem beginsMoment_append (hds : ∀ d ∈ ds, d.isDigit) (hc : c.isDigit = false) (hcolon : c ≠ ':')
    (hdash : c ≠ '-') : beginsMoment (ds ++ c :: rest) = false := by
  have hdigit (d : Char) (hd : d ∈ ds) : d ≠ ':' ∧ d ≠ '-' :=
    ⟨ne_of_isDigit (hds d hd) rfl, ne_of_isDigit (hds d hd) rfl⟩
  match ds with
  | [] => exact beginsMoment_cons hc
  | [a] => rcases rest with _ | ⟨b, rest⟩ <;> simp [beginsMoment, hc]
  | [a, b] => simp [beginsMoment, hc, hcolon]
  | [a, b, d] => rcases rest with _ | ⟨e, rest⟩ <;> simp [beginsMoment, hc, hdigit d]
  | [a, b, d, e] => simp [beginsMoment, hdash, hdigit d]
  | a :: b :: d :: e :: f :: ds => simp [beginsMoment, hdigit d, hdigit f]

theorem digitValue_of_isDigit (hc : c.isDigit) : digitValue c = c.toNat - '0'.toNat := if_pos hc

theorem valueOf_of_digits (hds : ∀ d ∈ ds, d.isDigit) :
    valueOf 10 ds = Nat.ofDigitChars 10 ds 0 := by
  rw [valueOf, Nat.ofDigitChars_eq_foldl]
  refine List.foldl_ext _ _ _ fun n d hd => ?_
  rw [digitValue_of_isDigit (hds d hd)]

/-- Leaving out zeros at the end of the fraction does not change the decimal. -/
theorem decimalFloat_eq (hds : ∀ d ∈ ds, d.isDigit) (hfs : ∀ d ∈ fs, d.isDigit) :
    ∃ u p : ℕ, decimalFloat ds fs 0 = Float.ofScientific u true p ∧
      (u : ℚ) / 10 ^ p = (Nat.ofDigitChars 10 (ds ++ fs) 0 : ℕ) / 10 ^ fs.length := by
  have hzeros : ∀ d ∈ fs.rtakeWhile (· = '0'), d = '0' := fun d hd => by
    simpa using List.mem_rtakeWhile_imp hd
  have hsplit : fs.rdropWhile (· = '0') ++ fs.rtakeWhile (· = '0') = fs :=
    List.rdropWhile_append_rtakeWhile
  rw [List.eq_replicate_of_mem hzeros] at hsplit
  set front := fs.rdropWhile (· = '0')
  set k := (fs.rtakeWhile (· = '0')).length
  have hfront : ∀ d ∈ ds ++ front, d.isDigit := by
    intro d hd
    rcases List.mem_append.1 hd with hd | hd
    · exact hds d hd
    · exact hfs d (by rw [← hsplit]; exact List.mem_append_left _ hd)
  refine ⟨valueOf 10 (ds ++ front), front.length, ?_, ?_⟩
  · have hexponent : (0 - (front.length : ℤ)).natAbs = front.length := by omega
    have hnegative : decide (0 - (front.length : ℤ) ≤ 0) = true := by simp
    change Float.ofScientific (valueOf 10 (ds ++ front)) (decide (0 - (front.length : ℤ) ≤ 0))
      (0 - (front.length : ℤ)).natAbs = _
    rw [hexponent, hnegative]
  · have hdigits : Nat.ofDigitChars 10 (ds ++ fs) 0 = 10 ^ k * valueOf 10 (ds ++ front) := by
      rw [← hsplit, ← List.append_assoc, Nat.ofDigitChars_append, Nat.ofDigitChars_replicate_zero,
        valueOf_of_digits hfront]
    have hlength : fs.length = front.length + k := by
      rw [← hsplit, List.length_append, List.length_replicate]
    rw [hdigits, hlength, pow_add, Nat.cast_mul, mul_comm (10 ^ front.length : ℚ)]
    push_cast
    rw [mul_div_mul_left _ _ (by positivity)]

end Digits

section Value

variable {rest : List Char}

/-- A value without brackets around it, and no truth value. -/
theorem value_cons {c : Char} {cs : List Char}
    (hc : c ≠ '[' ∧ c ≠ '\x7b' ∧ c ≠ 't' ∧ c ≠ 'f') :
    value (c :: cs) =
      if c = '"' ∨ c = '\'' then
        (text? (c :: cs)).map fun (content, left) => (.text (String.ofList content), left)
      else if beginsMoment (c :: cs) then (moment (c :: cs)).map fun left => (.other, left)
      else number? (c :: cs) := by
  rw [value, valueUpTo.eq_def]
  split
  split
  · next h => exact absurd (List.cons.inj h).1 hc.1
  · next h => exact absurd (List.cons.inj h).1 hc.2.1
  · next h => exact absurd (List.cons.inj h).1 hc.2.2.1
  · next h => exact absurd (List.cons.inj h).1 hc.2.2.2
  · next h =>
    obtain ⟨rfl, rfl⟩ := List.cons.inj h
    rfl
  · next h => cases h

/-- A value that begins like a number and not like a moment is a number. -/
theorem value_of_number {c : Char} {cs : List Char}
    (hc : c.isDigit ∨ c = '-' ∨ c = 'i' ∨ c = 'n') (hmoment : beginsMoment (c :: cs) = false) :
    value (c :: cs) = number? (c :: cs) := by
  have hne (d : Char) (hd : d.isDigit = false) (hd' : d ≠ '-' ∧ d ≠ 'i' ∧ d ≠ 'n') : c ≠ d := by
    rintro rfl
    simp [hd, hd'] at hc
  have hfirst : c ≠ '[' ∧ c ≠ '\x7b' ∧ c ≠ 't' ∧ c ≠ 'f' :=
    ⟨hne _ rfl (by decide), hne _ rfl (by decide), hne _ rfl (by decide), hne _ rfl (by decide)⟩
  have hquote : ¬(c = '"' ∨ c = '\'') :=
    not_or.2 ⟨hne _ rfl (by decide), hne _ rfl (by decide)⟩
  rw [value_cons hfirst, if_neg hquote, hmoment, if_neg Bool.false_ne_true]

/-- Behind its sign, a number that does not begin with the mark of a base is one in decimal
notation or a special one. -/
theorem number?_eq {cs : List Char} (hx : ∀ r, cs ≠ '0' :: 'x' :: r)
    (ho : ∀ r, cs ≠ '0' :: 'o' :: r) (hb : ∀ r, cs ≠ '0' :: 'b' :: r) :
    number? cs = (special? (sign cs).1 (sign cs).2).or (decimal (sign cs).1 (sign cs).2) := by
  unfold number?
  split
  · exact absurd rfl (hx _)
  · exact absurd rfl (ho _)
  · exact absurd rfl (hb _)
  · rfl

/-- The second character of a number is a digit or what ends its first digits. -/
theorem append_cons_ne {ds : List Char} {a c d : Char} (hds : ∀ e ∈ ds, e.isDigit) (hne : ds ≠ [])
    (hd : d.isDigit = false) (hc : c ≠ d) (r : List Char) : ds ++ c :: rest ≠ a :: d :: r := by
  intro h
  match ds with
  | [] => exact hne rfl
  | [_] =>
    simp only [List.cons_append, List.nil_append, List.cons.injEq] at h
    exact hc h.2.1
  | _ :: b :: _ =>
    simp only [List.cons_append, List.cons.injEq] at h
    exact ne_of_isDigit (hds b (by simp)) hd h.2.1

theorem special?_digits (negative : Bool) (n : ℕ) :
    special? negative (digits n ++ rest) = none := by
  obtain ⟨d, ds, h⟩ := List.exists_cons_of_ne_nil (Nat.toDigits_ne_nil (n := n) (b := 10))
  have hd : d.isDigit := isDigit_of_mem_digits (n := n) (by rw [digits, h]; simp)
  rw [digits, h, List.cons_append]
  unfold special?
  split
  · next h => exact absurd (List.cons.inj h).1 (ne_of_isDigit hd rfl)
  · next h => exact absurd (List.cons.inj h).1 (ne_of_isDigit hd rfl)
  · rfl

theorem sign_digits (n : ℕ) : sign (digits n ++ rest) = (false, digits n ++ rest) := by
  obtain ⟨d, ds, h⟩ := List.exists_cons_of_ne_nil (Nat.toDigits_ne_nil (n := n) (b := 10))
  have hd : d.isDigit := isDigit_of_mem_digits (n := n) (by rw [digits, h]; simp)
  rw [digits, h, List.cons_append]
  unfold sign
  split
  · next h => exact absurd (List.cons.inj h).1 (ne_of_isDigit hd rfl)
  · next h => exact absurd (List.cons.inj h).1 (ne_of_isDigit hd rfl)
  · rfl

/-- Digits are read in decimal notation, if no mark of a base follows the first of them. -/
theorem number?_digits (negative : Bool) (n : ℕ) {c : Char} (hc : c ≠ 'x' ∧ c ≠ 'o' ∧ c ≠ 'b') :
    number? (signText negative ++ (digits n ++ c :: rest)) =
      decimal negative (digits n ++ c :: rest) := by
  have hds : ∀ e ∈ digits n, e.isDigit := fun _ => isDigit_of_mem_digits
  cases negative with
  | false =>
    change number? (digits n ++ c :: rest) = _
    rw [number?_eq (append_cons_ne hds Nat.toDigits_ne_nil rfl hc.1)
      (append_cons_ne hds Nat.toDigits_ne_nil rfl hc.2.1)
      (append_cons_ne hds Nat.toDigits_ne_nil rfl hc.2.2), sign_digits, special?_digits]
    rfl
  | true =>
    change number? ('-' :: (digits n ++ c :: rest)) = _
    rw [number?_eq (by simp) (by simp) (by simp), sign, special?_digits]
    rfl

theorem value_digits (negative : Bool) (n : ℕ) {c : Char} (hc : c.isDigit = false)
    (hmark : c ≠ 'x' ∧ c ≠ 'o' ∧ c ≠ 'b') (hmoment : c ≠ ':' ∧ c ≠ '-') :
    value (signText negative ++ (digits n ++ c :: rest)) =
      decimal negative (digits n ++ c :: rest) := by
  rw [← number?_digits negative n hmark]
  cases negative with
  | false =>
    have hds : ∀ e ∈ digits n, e.isDigit := fun _ => isDigit_of_mem_digits
    have hbegins : beginsMoment (digits n ++ c :: rest) = false :=
      beginsMoment_append hds hc hmoment.1 hmoment.2
    obtain ⟨d, ds, h⟩ := List.exists_cons_of_ne_nil (Nat.toDigits_ne_nil (n := n) (b := 10))
    rw [← digits] at h
    rw [h, List.cons_append] at hbegins
    change value (digits n ++ c :: rest) = number? (digits n ++ c :: rest)
    rw [h, List.cons_append]
    exact value_of_number (.inl (hds d (by rw [h]; simp))) hbegins
  | true => exact value_of_number (.inr (.inl rfl)) (beginsMoment_cons rfl)

/-- Digits alone are an integer. -/
theorem value_integer {n : ℕ} (hn : (n : ℤ) ≤ int64Max) :
    value (digits n ++ '\n' :: rest) = some (.integer n, '\n' :: rest) := by
  have hvalue : value (signText false ++ (digits n ++ '\n' :: rest)) =
      decimal false (digits n ++ '\n' :: rest) :=
    value_digits false n rfl (by decide) (by decide)
  have hrange : int64 (n : ℤ) = some (.integer n) := by
    have hlow : int64Min ≤ (n : ℤ) := by
      rw [int64Min]
      omega
    exact if_pos ⟨hlow, hn⟩
  have hof : valueOf 10 (digits n) = n := by
    rw [valueOf_of_digits fun _ => isDigit_of_mem_digits, ofDigitChars_digits]
  rw [signText, if_neg Bool.false_ne_true, List.nil_append] at hvalue
  rw [hvalue, decimal, wholeRun_append n rfl (by decide)]
  simp [fractionRun, exponentRun, hof, hrange]

theorem value_writeInteger {n : ℕ} (hn : (n : ℤ) ≤ int64Max) :
    value (writeInteger n ++ '\n' :: rest) = some (.integer n, '\n' :: rest) := by
  have hdigits : writeInteger n = digits n := by
    change (Nat.repr n).toList = _
    rw [Nat.toList_repr]
    rfl
  rw [hdigits, value_integer hn]

/-- Digits with a point among them are a float. -/
theorem value_point (negative : Bool) (n : ℕ) {fs : List Char} (hfs : ∀ d ∈ fs, d.isDigit)
    (hne : fs ≠ []) :
    value (signText negative ++ (digits n ++ '.' :: (fs ++ '\n' :: rest))) =
      (decimalValue negative (decimalFloat (digits n) fs 0)).map (·, '\n' :: rest) := by
  rw [value_digits negative n rfl (by decide) (by decide), decimal,
    wholeRun_append n rfl (by decide)]
  have hfraction : fractionRun ('.' :: (fs ++ '\n' :: rest)) = some (fs, '\n' :: rest) :=
    digitRun_append hfs hne rfl (by decide)
  have hexponent : exponentRun ('\n' :: rest) = some (0, '\n' :: rest) := rfl
  have hlength : ('\n' :: rest).length ≠ ('.' :: (fs ++ '\n' :: rest)).length := by
    simp only [List.length_cons, List.length_append]
    omega
  simp only [Option.bind_eq_bind, Option.bind_some, hfraction, hexponent, if_neg hlength]
  cases decimalValue negative (decimalFloat (digits n) fs 0) <;> rfl

end Value

section Float

variable {x y : Float} {negative : Bool} {m : ℕ} {q : ℤ} {rest : List Char}

theorem writeFloat_of_finite (h : view x = .finite negative m q) :
    writeFloat x = signText negative ++ ((decimalOf m q).wholeDigits ++ '.' ::
      if (decimalOf m q).places = 0 then ['0'] else (decimalOf m q).fractionDigits) := by
  have hsign : '.' ∉ signText negative := by cases negative <;> decide
  have hwhole : '.' ∉ (decimalOf m q).wholeDigits := fun hmem =>
    absurd (Decimal.isDigit_of_mem_wholeDigits hmem) (by decide)
  simp only [writeFloat, h, plainChars_of_finite h, Decimal.positional_eq]
  split
  · simp [hsign, hwhole]
  · simp

theorem isInf_of_finite (h : view x = .finite negative m q) : x.isInf = false := by
  have hinf : x.isInf = x.toModel.unpack.isInf := rfl
  simp only [view] at h
  split at h
  all_goals cases h
  all_goals next hx => rw [hinf, hx]; rfl

theorem decimalValue_of_view (h : view x = .finite negative m q) (hy : view y = .finite false m q) :
    decimalValue negative y = some (.float x) := by
  have hx : signedFloat negative y = x := signed_eq_of_view h hy
  rw [decimalValue, isInf_of_finite hy, Bool.and_false, if_neg Bool.false_ne_true, hx]

/-- The digits of a float are read as the float. -/
theorem value_writeFloat_of_finite (h : view x = .finite negative m q) :
    value (writeFloat x ++ '\n' :: rest) = some (.float x, '\n' :: rest) := by
  set d := decimalOf m q with hd
  have hfraction : ∃ fs : List Char, (if d.places = 0 then ['0'] else d.fractionDigits) = fs ∧
      fs ≠ [] ∧ (∀ c ∈ fs, c.isDigit) ∧
      (Nat.ofDigitChars 10 (d.wholeDigits ++ fs) 0 : ℚ) / 10 ^ fs.length = d.value := by
    rw [Decimal.value, ← d.ofDigitChars_positional]
    split
    · next hp =>
      have hnil : d.fractionDigits = [] := by
        rw [← List.length_eq_zero_iff, d.length_fractionDigits, hp]
      have hzero (k : ℕ) : Nat.ofDigitChars 10 ['0'] k = 10 * k := rfl
      refine ⟨['0'], rfl, by simp, by simp, ?_⟩
      rw [hnil, hp, Nat.ofDigitChars_append, hzero, List.append_nil]
      push_cast
      norm_num
    · next hp =>
      refine ⟨d.fractionDigits, rfl, ?_, fun _ => Decimal.isDigit_of_mem_fractionDigits, ?_⟩
      · rw [← List.length_pos_iff, d.length_fractionDigits]
        omega
      · rw [d.length_fractionDigits]
  obtain ⟨fs, hfs, hne, hdigits, hvalue⟩ := hfraction
  have hwhole : ∀ c ∈ d.wholeDigits, c.isDigit := fun _ => Decimal.isDigit_of_mem_wholeDigits
  obtain ⟨u, p, hread, hu⟩ := decimalFloat_eq hwhole hdigits
  have hview := view_ofScientific_decimalOf h (hu.trans hvalue)
  rw [writeFloat_of_finite h, ← hd, hfs, List.append_assoc, List.append_assoc, List.cons_append,
    Decimal.wholeDigits, value_point negative _ hdigits hne, ← Decimal.wholeDigits, hread,
    decimalValue_of_view h hview]
  rfl

/-- Every float is read as it was written. -/
theorem value_writeFloat (x : Float) :
    value (writeFloat x ++ '\n' :: rest) = some (.float x, '\n' :: rest) := by
  cases h : view x with
  | finite negative m q => exact value_writeFloat_of_finite h
  | nan =>
    have hx : x = 0 / 0 := view_injective (h.trans view_notANumber.symm)
    rw [writeFloat, h]
    subst hx
    exact value_of_number (.inr (.inr (.inr rfl))) (beginsMoment_cons rfl)
  | infinite negative =>
    have hx : x = signedFloat negative (1 / 0) := view_injective (h.trans (view_infinity _).symm)
    rw [writeFloat, h, plainChars, h]
    subst hx
    cases negative with
    | false => exact value_of_number (.inr (.inr (.inl rfl))) (beginsMoment_cons rfl)
    | true => exact value_of_number (.inr (.inl rfl)) (beginsMoment_cons rfl)

end Float

end Patchbay.Toml
