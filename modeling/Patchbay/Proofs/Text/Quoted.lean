import Mathlib
import Patchbay.Proofs.Code.Rows

/-!
String literals by the rules of the emitted language. Behind the opening quote stand characters,
escapes and continuations of the line, each for some code units of UTF-16, up to the first quote
that no backslash escapes. A quoted text is one such literal, on a single line, and stands for the
code units of the text.
-/
namespace Patchbay.Text

/-- The code units of a code point in UTF-16. One that is half of a pair is its own code unit. -/
def codeUnits (point : ℕ) : List UInt16 :=
  if point < 0x10000 then [.ofNat point]
  else [.ofNat (0xd800 + (point - 0x10000) / 0x400), .ofNat (0xdc00 + (point - 0x10000) % 0x400)]

def utf16 (cs : List Char) : List UInt16 := cs.flatMap fun c => codeUnits c.toNat

namespace Literal

/-- What some characters stand for, and the characters behind them. -/
abbrev Reader := Toml.Reader (List UInt16)

/-- A code unit in exactly `width` hexadecimal digits. -/
def hexEscape? (width : ℕ) : Reader := fun cs =>
  let digits := cs.take width
  if digits.length = width ∧ digits.all Toml.isHexDigit then
    some (codeUnits (Toml.valueOf 16 digits), cs.drop width)
  else none

/-- Four digits, or the digits of a code point in braces. -/
def unicodeEscape? : Reader
  | '\x7b' :: rest =>
    let digits := rest.takeWhile Toml.isHexDigit
    match rest.drop digits.length with
    | '\x7d' :: left =>
      if digits ≠ [] ∧ Toml.valueOf 16 digits ≤ 0x10ffff then
        some (codeUnits (Toml.valueOf 16 digits), left)
      else none
    | _ => none
  | rest => hexEscape? 4 rest

/-- The character that is meant by one behind a backslash. Those without a meaning of their own mean
themselves. -/
def meant : Char → Char
  | 'b' => '\x08'
  | 't' => '\t'
  | 'n' => '\n'
  | 'v' => '\x0b'
  | 'f' => '\x0c'
  | 'r' => '\r'
  | c => c

/-- What stands behind a backslash: the end of a line that the literal runs over, or an escape. Of
the digits only a zero with no digit behind it makes one. -/
def escape? : Reader
  | [] => none
  | '\r' :: '\n' :: rest => some ([], rest)
  | 'x' :: rest => hexEscape? 2 rest
  | 'u' :: rest => unicodeEscape? rest
  | c :: rest =>
    if endsLine c then some ([], rest)
    else if c.isDigit then
      if c = '0' ∧ rest.head?.all (!·.isDigit) then some ([0], rest) else none
    else some (codeUnits (meant c).toNat, rest)

theorem length_hexEscape? {width : ℕ} {cs rest : List Char} {units : List UInt16}
    (h : hexEscape? width cs = some (units, rest)) : rest.length ≤ cs.length := by
  simp only [hexEscape?, Option.ite_none_right_eq_some, Option.some.injEq, Prod.mk.injEq] at h
  simp only [← h.2.2, List.length_drop]
  omega

theorem length_unicodeEscape? {cs rest : List Char} {units : List UInt16}
    (h : unicodeEscape? cs = some (units, rest)) : rest.length ≤ cs.length := by
  unfold unicodeEscape? at h
  split at h
  · next more =>
    simp only at h
    split at h
    · next left hleft =>
      simp only [Option.ite_none_right_eq_some, Option.some.injEq, Prod.mk.injEq] at h
      have hlength := congrArg List.length hleft
      simp only [List.length_drop, List.length_cons] at hlength ⊢
      rw [← h.2.2]
      omega
    · cases h
  · exact length_hexEscape? h

theorem length_escape? {cs rest : List Char} {units : List UInt16}
    (h : escape? cs = some (units, rest)) : rest.length < cs.length := by
  unfold escape? at h
  split at h
  · cases h
  · cases h
    simp only [List.length_cons]
    omega
  · exact Nat.lt_succ_of_le (length_hexEscape? h)
  · exact Nat.lt_succ_of_le (length_unicodeEscape? h)
  · rw [List.length_cons]
    split_ifs at h
    all_goals cases h
    all_goals exact Nat.lt_succ_self _

/-- Behind the opening quote, up to the closing one. A line may end in between only at a separator
of the kind that may stand in a literal, or behind a backslash. -/
def body? (cs : List Char) : Option (List UInt16 × List Char) :=
  match cs with
  | [] => none
  | '"' :: rest => some ([], rest)
  | '\\' :: rest =>
    match _h : escape? rest with
    | some (units, rest') => (body? rest').map fun (more, left) => (units ++ more, left)
    | none => none
  | c :: rest =>
    if c = '\n' ∨ c = '\r' then none
    else (body? rest).map fun (more, left) => (codeUnits c.toNat ++ more, left)
termination_by cs.length
decreasing_by
  · have := length_escape? _h
    simp only [List.length_cons]
    omega
  · simp only [List.length_cons]
    omega

/-- One literal in double quotes. -/
def read? : Reader
  | '"' :: rest => body? rest
  | _ => none

example : read? "\"a\\x41\\u\x7b1F600\x7d\\0\\\n\"".toList =
    some ([97, 65, 0xd83d, 0xde00, 0], []) := by cbv

/-- Whether a quote stands in the text that no backslash escapes. -/
def hasBareQuote : List Char → Bool
  | [] => false
  | '\\' :: _ :: rest => hasBareQuote rest
  | c :: rest => c = '"' || hasBareQuote rest

end Literal

section Units

variable {c d : Char} {cs ds : List Char} {units more : List UInt16}

theorem ofNat_inj {m n : ℕ} (hm : m < 0x10000) (hn : n < 0x10000) :
    UInt16.ofNat m = UInt16.ofNat n ↔ m = n := by
  constructor
  · intro h
    have := congrArg UInt16.toNat h
    simp only [UInt16.toNat_ofNat'] at this
    omega
  · exact congrArg _

/-- The code units of a text tell its first character. -/
theorem codeUnits_append_inj (h : codeUnits c.toNat ++ units = codeUnits d.toNat ++ more) :
    c = d ∧ units = more := by
  have hc : c.toNat < 0xd800 ∨ 0xdfff < c.toNat ∧ c.toNat < 0x110000 := c.valid
  have hd : d.toNat < 0xd800 ∨ 0xdfff < d.toNat ∧ d.toNat < 0x110000 := d.valid
  unfold codeUnits at h
  split_ifs at h with hclow hdlow hdlow
  · obtain ⟨hunit, hrest⟩ := List.cons.inj h
    exact ⟨Char.toNat_inj.1 ((ofNat_inj hclow hdlow).1 hunit), hrest⟩
  -- The first half of a pair is no character.
  · have hunit := (ofNat_inj hclow (by omega)).1 (List.cons.inj h).1
    omega
  · have hunit := (ofNat_inj (by omega) hdlow).1 (List.cons.inj h).1
    omega
  · obtain ⟨hhigh, h⟩ := List.cons.inj h
    obtain ⟨hlow, hrest⟩ := List.cons.inj h
    have hhigh := (ofNat_inj (by omega) (by omega)).1 hhigh
    have hlow := (ofNat_inj (by omega) (by omega)).1 hlow
    exact ⟨Char.toNat_inj.1 (by omega), hrest⟩

theorem codeUnits_ne_nil (point : ℕ) : codeUnits point ≠ [] := by
  unfold codeUnits
  split <;> exact List.cons_ne_nil _ _

theorem utf16_injective : Function.Injective utf16 := by
  intro cs ds h
  induction cs generalizing ds with
  | nil =>
    cases ds with
    | nil => rfl
    | cons d ds => exact absurd (List.append_eq_nil_iff.1 h.symm).1 (codeUnits_ne_nil _)
  | cons c cs ih =>
    cases ds with
    | nil => exact absurd (List.append_eq_nil_iff.1 h).1 (codeUnits_ne_nil _)
    | cons d ds =>
      obtain ⟨rfl, hrest⟩ := codeUnits_append_inj h
      rw [ih hrest]

end Units

namespace Literal

variable {c : Char} {cs es rest : List Char} {units : List UInt16}

theorem body?_quote (rest : List Char) : body? ('"' :: rest) = some ([], rest) := by
  rw [body?.eq_def]
  rfl

theorem body?_escape (h : escape? (es ++ rest) = some (units, rest)) :
    body? ('\\' :: (es ++ rest)) =
      (body? rest).map fun (more, left) => (units ++ more, left) := by
  rw [body?.eq_def]
  simp only
  split
  · next heq =>
    rw [h] at heq
    cases heq
    rfl
  · next heq =>
    rw [h] at heq
    cases heq

theorem body?_char (h : c ≠ '"' ∧ c ≠ '\\' ∧ c ≠ '\n' ∧ c ≠ '\r') :
    body? (c :: rest) =
      (body? rest).map fun (more, left) => (codeUnits c.toNat ++ more, left) := by
  rw [body?.eq_def]
  split
  · next heq => cases heq
  · next heq => exact absurd (List.cons.inj heq).1 h.1
  · next heq => exact absurd (List.cons.inj heq).1 h.2.1
  · next heq =>
    obtain ⟨rfl, rfl⟩ := List.cons.inj heq
    rw [if_neg (not_or.2 h.2.2)]

/-- How a character is written: with a letter or a sign behind a backslash, with its number in four
digits, or as it is. -/
theorem escaped_cases (c : Char) :
    (∃ e ∈ ['"', '\\', 'n', 'r'], escaped c = ['\\', e] ∧ meant e = c) ∨
    (∃ digits, escaped c = '\\' :: 'u' :: digits ∧ digits.length = 4 ∧
      digits.all Toml.isHexDigit ∧ Toml.valueOf 16 digits = c.toNat) ∨
    (escaped c = [c] ∧ c ≠ '"' ∧ c ≠ '\\' ∧ c ≠ '\n' ∧ c ≠ '\r') := by
  unfold escaped
  split_ifs with hq hs hn hr hlong
  · exact .inl ⟨'"', by decide, rfl, hq.symm⟩
  · exact .inl ⟨'\\', by decide, rfl, hs.symm⟩
  · exact .inl ⟨'n', by decide, rfl, hn.symm⟩
  · exact .inl ⟨'r', by decide, rfl, hr.symm⟩
  · exact .inr (.inl ⟨hex4 c.toNat, rfl, Data.hex4_of_escaped hlong⟩)
  · exact .inr (.inr ⟨rfl, hq, hs, hn, hr⟩)

theorem hexEscape?_append {digits : List Char} (hdigits : digits.all Toml.isHexDigit) :
    hexEscape? digits.length (digits ++ rest) =
      some (codeUnits (Toml.valueOf 16 digits), rest) := by
  simp only [hexEscape?, List.take_left, List.drop_left, hdigits, and_self, if_true]

theorem unicodeEscape?_append {digits : List Char} (hlength : digits.length = 4)
    (hdigits : digits.all Toml.isHexDigit) :
    unicodeEscape? (digits ++ rest) = some (codeUnits (Toml.valueOf 16 digits), rest) := by
  unfold unicodeEscape?
  split
  · next heq =>
    -- A brace is no digit.
    obtain ⟨a, b, d, e, rfl⟩ := List.length_eq_four.1 hlength
    rw [(List.cons.inj heq).1] at hdigits
    cases hdigits
  · rw [← hlength]
    exact hexEscape?_append hdigits

/-- A written character stands for its code units, whatever follows. -/
theorem body?_escaped (c : Char) (rest : List Char) :
    body? (escaped c ++ rest) =
      (body? rest).map fun (more, left) => (codeUnits c.toNat ++ more, left) := by
  rcases escaped_cases c with ⟨e, he, hescaped, hmeant⟩ | ⟨ds, hescaped, hlength, hdigits, hvalue⟩ |
    ⟨hself, hplain⟩
  · have hread : escape? ([e] ++ rest) = some (codeUnits c.toNat, rest) := by
      rw [← hmeant]
      fin_cases he <;> rfl
    rw [hescaped]
    exact body?_escape hread
  · have hread : escape? ('u' :: ds ++ rest) = some (codeUnits c.toNat, rest) := by
      rw [← hvalue]
      exact unicodeEscape?_append hlength hdigits
    rw [hescaped]
    exact body?_escape hread
  · rw [hself]
    exact body?_char hplain

theorem body?_flatMap_escaped (cs rest : List Char) :
    body? (cs.flatMap escaped ++ '"' :: rest) = some (utf16 cs, rest) := by
  induction cs with
  | nil => exact body?_quote rest
  | cons c cs ih =>
    rw [List.flatMap_cons, List.append_assoc, body?_escaped, ih]
    rfl

/-- A quoted text is read up to its closing quote. -/
theorem read?_quoted (s : String) (rest : List Char) :
    read? ((quoted s).toList ++ rest) = some (utf16 s.toList, rest) := by
  have htext : (quoted s).toList ++ rest = '"' :: (s.toList.flatMap escaped ++ '"' :: rest) := by
    simp [quoted, quotedChars]
  rw [htext]
  exact body?_flatMap_escaped s.toList rest

theorem hasBareQuote_cons (h : c ≠ '"' ∧ c ≠ '\\') :
    hasBareQuote (c :: rest) = hasBareQuote rest := by
  rw [hasBareQuote.eq_def]
  split
  · next heq => cases heq
  · next heq => exact absurd (List.cons.inj heq).1 h.2
  · next heq =>
    obtain ⟨rfl, rfl⟩ := List.cons.inj heq
    rw [decide_eq_false h.1, Bool.false_or]

theorem hasBareQuote_append (h : ∀ c ∈ cs, c ≠ '"' ∧ c ≠ '\\') :
    hasBareQuote (cs ++ rest) = hasBareQuote rest := by
  induction cs with
  | nil => rfl
  | cons c cs ih =>
    obtain ⟨hc, hcs⟩ := List.forall_mem_cons.1 h
    rw [List.cons_append, hasBareQuote_cons hc, ih hcs]

theorem hasBareQuote_escaped (c : Char) (rest : List Char) :
    hasBareQuote (escaped c ++ rest) = hasBareQuote rest := by
  rcases escaped_cases c with ⟨e, -, hescaped, -⟩ | ⟨digits, hescaped, -, hdigits, -⟩ |
    ⟨hself, hq, hs, -⟩
  · rw [hescaped]
    rfl
  · have hplain : ∀ d ∈ digits, d ≠ '"' ∧ d ≠ '\\' := by
      intro d hd
      have hdigit := List.all_eq_true.1 hdigits d hd
      refine ⟨?_, ?_⟩
      all_goals rintro rfl
      all_goals cases hdigit
    rw [hescaped]
    show hasBareQuote (digits ++ rest) = hasBareQuote rest
    exact hasBareQuote_append hplain
  · rw [hself]
    exact hasBareQuote_cons ⟨hq, hs⟩

theorem hasBareQuote_flatMap_escaped (cs : List Char) :
    hasBareQuote (cs.flatMap escaped) = false := by
  induction cs with
  | nil => rfl
  | cons c cs ih => rw [List.flatMap_cons, hasBareQuote_escaped, ih]

end Literal

theorem not_isControl_of_isInline {c : Char} (h : isInline c) : isControl c = false := by
  simp only [isInline, Bool.and_eq_true, Bool.not_eq_true'] at h
  exact h.1.1

/-- A quoted text is one literal of the emitted language and stands for the text: it is read up to
its last quote, which is the first that no backslash escapes, as the code units of the text. It
holds no control character and nothing that ends a line. No other text has the same literal. -/
theorem quoted_is_literal (s : String) :
    (∀ rest, Literal.read? ((quoted s).toList ++ rest) = some (utf16 s.toList, rest)) ∧
    (∃ inner, (quoted s).toList = '"' :: (inner ++ ['"']) ∧ Literal.hasBareQuote inner = false) ∧
    (∀ c ∈ (quoted s).toList, isControl c = false ∧ endsLine c = false) ∧
    ∀ t, quoted t = quoted s → t = s := by
  refine ⟨Literal.read?_quoted s, ⟨s.toList.flatMap escaped, by simp [quoted, quotedChars],
    Literal.hasBareQuote_flatMap_escaped _⟩, ?_, ?_⟩
  · intro c hc
    have hinline : isInline c := List.all_eq_true.1 (oneLine_quoted s) c hc
    exact ⟨not_isControl_of_isInline hinline, lineEnds_endsLine.not_inline c hinline⟩
  · intro t h
    have hread := Literal.read?_quoted t []
    rw [h, Literal.read?_quoted s []] at hread
    have hunits : utf16 s.toList = utf16 t.toList := (Prod.mk.inj (Option.some.inj hread)).1
    exact String.toList_inj.1 (utf16_injective hunits.symm)

end Patchbay.Text
