import Mathlib
import Patchbay.Proofs.Code.Numeral
import Patchbay.Text.Quoted
import Patchbay.Toml.Value

/-!
Data of the emitted language: numbers, strings, arrays and objects as they stand in an expression,
and a reader for them. Of the language it knows only what data is written with, and it refuses what
it does not know.
-/
namespace Patchbay

inductive Data where
  | number (n : Numeral)
  | string (text : List Char)
  | array (items : List Data)
  | object (fields : List (List Char × Data))

namespace Data

def isGap (c : Char) : Bool := c = ' ' || c = '\t' || c = '\n' || c = '\r'

def skipGaps (cs : List Char) : List Char := cs.dropWhile isGap

/-- The character of an escape that has a letter or a sign of its own. -/
def shortEscape? (c : Char) : Option Char :=
  if c = 'n' then some '\n'
  else if c = 'r' then some '\r'
  else if c = 't' then some '\t'
  else if c = 'b' then some '\x08'
  else if c = 'f' then some '\x0c'
  else if c = 'v' then some '\x0b'
  else if c = '"' ∨ c = '\'' ∨ c = '\\' then some c
  else none

/-- The character of an escape with four hexadecimal digits, if it stands for one by itself. -/
def longEscape? (digits : List Char) : Option Char :=
  let n := Toml.valueOf 16 digits
  if digits.all Toml.isHexDigit ∧ n.isValidChar then some (Char.ofNat n) else none

/-- Behind the opening quote, up to the closing one. A line may not end in between. -/
def stringBody : List Char → Option (List Char × List Char)
  | [] => none
  | '"' :: rest => some ([], rest)
  | '\\' :: 'u' :: a :: b :: c :: d :: rest => do
    let e ← longEscape? [a, b, c, d]
    let (text, left) ← stringBody rest
    return (e :: text, left)
  | '\\' :: c :: rest => do
    let e ← shortEscape? c
    let (text, left) ← stringBody rest
    return (e :: text, left)
  | c :: rest =>
    if c = '\\' ∨ c = '\n' ∨ c = '\r' then none
    else do
      let (text, left) ← stringBody rest
      return (c :: text, left)

def colon? : List Char → Option (List Char)
  | ':' :: rest => some rest
  | _ => none

mutual

/-- One piece of data; `fuel` bounds how many there are in it. -/
def value : (fuel : ℕ) → List Char → Option (Data × List Char)
  | 0, _ => none
  | fuel + 1, cs =>
    match skipGaps cs with
    | '"' :: rest => (stringBody rest).map fun (text, left) => (.string text, left)
    | '[' :: rest => (items fuel rest).map fun (ds, left) => (.array ds, left)
    | '\x7b' :: rest => (fields fuel rest).map fun (fs, left) => (.object fs, left)
    | cs => (Numeral.read? cs).map fun (n, left) => (.number n, left)

/-- The items of an array, behind the opening bracket or a comma. -/
def items : (fuel : ℕ) → List Char → Option (List Data × List Char)
  | 0, _ => none
  | fuel + 1, cs =>
    match skipGaps cs with
    | ']' :: left => some ([], left)
    | cs => do
      let (d, rest) ← value fuel cs
      match skipGaps rest with
      | ',' :: more =>
        let (ds, left) ← items fuel more
        return (d :: ds, left)
      | ']' :: left => return ([d], left)
      | _ => none

/-- The fields of an object, behind the opening brace or a comma. -/
def fields : (fuel : ℕ) → List Char → Option (List (List Char × Data) × List Char)
  | 0, _ => none
  | fuel + 1, cs =>
    match skipGaps cs with
    | '\x7d' :: left => some ([], left)
    | cs => do
      let name := cs.takeWhile Numeral.isTokenChar
      let rest ← if Text.isIdentifier name then colon? (skipGaps (cs.drop name.length)) else none
      let (d, rest) ← value fuel rest
      match skipGaps rest with
      | ',' :: more =>
        let (fs, left) ← fields fuel more
        return ((name, d) :: fs, left)
      | '\x7d' :: left => return ([(name, d)], left)
      | _ => none

end

/-- Reads a text that holds one piece of data and nothing else. -/
def read? (text : List Char) : Option Data :=
  match value text.length text with
  | some (d, left) => if skipGaps left = [] then some d else none
  | none => none

section Strings

variable {c : Char} {cs rest : List Char}

theorem stringBody_short {e : Char} (h : shortEscape? e = some c) :
    stringBody ('\\' :: e :: rest) =
      (stringBody rest).map fun (text, left) => (c :: text, left) := by
  have hu : e ≠ 'u' := by rintro rfl; cases h
  rw [stringBody.eq_def]
  split
  · next heq => cases heq
  · next heq => cases (List.cons.inj heq).1
  · next heq => exact absurd (List.cons.inj (List.cons.inj heq).2).1 hu
  · next heq =>
    obtain ⟨rfl, rfl⟩ := List.cons.inj (List.cons.inj heq).2
    rw [h]
    cases stringBody rest <;> rfl
  · next hshort heq =>
    obtain ⟨rfl, rfl⟩ := List.cons.inj heq
    exact absurd rfl (hshort _ _ rfl)

theorem stringBody_long {a b d e : Char} (h : longEscape? [a, b, d, e] = some c) :
    stringBody ('\\' :: 'u' :: a :: b :: d :: e :: rest) =
      (stringBody rest).map fun (text, left) => (c :: text, left) := by
  rw [stringBody, h]
  cases stringBody rest <;> rfl

theorem stringBody_char (h : c ≠ '"' ∧ c ≠ '\\' ∧ c ≠ '\n' ∧ c ≠ '\r') :
    stringBody (c :: rest) = (stringBody rest).map fun (text, left) => (c :: text, left) := by
  rw [stringBody.eq_def]
  split
  · next heq => cases heq
  · next heq => exact absurd (List.cons.inj heq).1 h.1
  · next heq => exact absurd (List.cons.inj heq).1 h.2.1
  · next heq => exact absurd (List.cons.inj heq).1 h.2.1
  · next heq =>
    obtain ⟨rfl, rfl⟩ := List.cons.inj heq
    rw [if_neg (not_or.2 ⟨h.2.1, not_or.2 h.2.2⟩)]
    cases stringBody rest <;> rfl

theorem hex4_spec : ∀ n < 160, (Text.hex4 n).length = 4 ∧ (Text.hex4 n).all Toml.isHexDigit ∧
    Toml.valueOf 16 (Text.hex4 n) = n := by
  decide +kernel

theorem hex4_of_escaped (h : c.toNat = 0x2028 ∨ c.toNat = 0x2029 ∨ Text.isControl c) :
    (Text.hex4 c.toNat).length = 4 ∧ (Text.hex4 c.toNat).all Toml.isHexDigit ∧
      Toml.valueOf 16 (Text.hex4 c.toNat) = c.toNat := by
  rcases h with h | h | h
  · rw [h]
    decide +kernel
  · rw [h]
    decide +kernel
  · refine hex4_spec _ ?_
    simp only [Text.isControl, Bool.or_eq_true, Bool.and_eq_true, decide_eq_true_eq] at h
    omega

/-- The four digits of a control character or a line separator stand for it. -/
theorem longEscape?_hex4 (h : c.toNat = 0x2028 ∨ c.toNat = 0x2029 ∨ Text.isControl c) :
    ∃ a b d e, Text.hex4 c.toNat = [a, b, d, e] ∧ longEscape? [a, b, d, e] = some c := by
  obtain ⟨hlength, hdigits, hvalue⟩ := hex4_of_escaped h
  obtain ⟨a, b, d, e, hfour⟩ := List.length_eq_four.1 hlength
  rw [hfour] at hdigits hvalue
  have hvalid : c.toNat.isValidChar := c.valid
  refine ⟨a, b, d, e, hfour, ?_⟩
  simp only [longEscape?, hvalue, hdigits, hvalid]
  simp

/-- A quoted text is read up to its closing quote. -/
theorem stringBody_escaped (cs rest : List Char) :
    stringBody (cs.flatMap Text.escaped ++ '"' :: rest) = some (cs, rest) := by
  induction cs with
  | nil => rfl
  | cons c cs ih =>
    rw [List.flatMap_cons, List.append_assoc, Text.escaped]
    split_ifs with hq hs hn hr hlong
    · exact (stringBody_short (by rw [hq]; rfl)).trans (congrArg (Option.map _) ih)
    · exact (stringBody_short (by rw [hs]; rfl)).trans (congrArg (Option.map _) ih)
    · exact (stringBody_short (by rw [hn]; rfl)).trans (congrArg (Option.map _) ih)
    · exact (stringBody_short (by rw [hr]; rfl)).trans (congrArg (Option.map _) ih)
    · obtain ⟨a, b, d, e, hfour, hread⟩ := longEscape?_hex4 hlong
      rw [hfour]
      exact (stringBody_long hread).trans (congrArg (Option.map _) ih)
    · exact (stringBody_char ⟨hq, hs, hn, hr⟩).trans (congrArg (Option.map _) ih)

end Strings

section Nested

variable {text rest name : List Char} {d : Data} {ds : List Data} {fuel : ℕ}

/-- The text is read as `d`, whatever stands behind it that does not go on with a token. -/
structure Reads (text : List Char) (d : Data) : Prop where
  starts : ∃ c cs, text = c :: cs ∧ isGap c = false ∧ c ≠ ']'
  value_succ : ∀ {fuel rest}, text.length ≤ fuel + 1 → Numeral.Ends rest →
    value (fuel + 1) (text ++ rest) = some (d, rest)

theorem Reads.value_eq (h : Reads text d) (hfuel : text.length ≤ fuel) (hrest : Numeral.Ends rest) :
    value fuel (text ++ rest) = some (d, rest) := by
  obtain ⟨c, cs, rfl, -, -⟩ := h.starts
  cases fuel with
  | zero => cases hfuel
  | succ fuel => exact h.value_succ hfuel hrest

theorem skipGaps_cons {c : Char} {cs : List Char} (hc : isGap c = false) :
    skipGaps (c :: cs) = c :: cs :=
  List.dropWhile_cons_of_neg (by simp [hc])

theorem isGap_of_isTokenChar {c : Char} (hc : Numeral.isTokenChar c) : isGap c = false := by
  by_contra hgap
  simp only [isGap, Bool.not_eq_false, Bool.or_eq_true, decide_eq_true_eq] at hgap
  rcases hgap with ((rfl | rfl) | rfl) | rfl <;> cases hc

theorem Reads.skipGaps_eq (h : Reads text d) : skipGaps (text ++ rest) = text ++ rest := by
  obtain ⟨c, cs, rfl, hgap, -⟩ := h.starts
  exact skipGaps_cons hgap

theorem reads_string (cs : List Char) : Reads (Text.quotedChars cs) (.string cs) where
  starts := ⟨'"', _, rfl, rfl, by decide⟩
  value_succ {fuel rest} _ _ := by
    have htext : Text.quotedChars cs ++ rest = '"' :: (cs.flatMap Text.escaped ++ '"' :: rest) := by
      simp [Text.quotedChars]
    rw [htext, value, skipGaps_cons rfl]
    simp only [stringBody_escaped, Option.map_some]

theorem reads_number (n : Numeral) : Reads n.text (.number n) := by
  obtain ⟨c, cs, htext⟩ := List.exists_cons_of_ne_nil n.text_ne_nil
  have hc : c = '-' ∨ Numeral.isTokenChar c := n.sign_or_token c (by simp [htext])
  -- So no other form of data begins with it.
  have hne {e : Char} (he : Numeral.isTokenChar e = false ∧ e ≠ '-') : c ≠ e := by
    rintro rfl
    rcases hc with hc | hc
    · exact he.2 hc
    · rw [he.1] at hc
      cases hc
  have hgap : isGap c = false := by
    rcases hc with rfl | hc
    · rfl
    · exact isGap_of_isTokenChar hc
  refine ⟨⟨c, cs, htext, hgap, hne (by decide)⟩, fun {fuel rest} _ hrest => ?_⟩
  have hread := Numeral.read?_text n hrest
  rw [htext] at hread ⊢
  rw [List.cons_append, value, skipGaps_cons hgap]
  split
  · next heq => exact absurd (List.cons.inj heq).1 (hne (by decide))
  · next heq => exact absurd (List.cons.inj heq).1 (hne (by decide))
  · next heq => exact absurd (List.cons.inj heq).1 (hne (by decide))
  · rw [← List.cons_append, hread, Option.map_some]

theorem items_item (h : Reads text d) (hfuel : text.length ≤ fuel) (hrest : Numeral.Ends rest) :
    items (fuel + 1) (text ++ rest) =
      match skipGaps rest with
      | ',' :: more => (items fuel more).map fun (ds, left) => (d :: ds, left)
      | ']' :: left => some ([d], left)
      | _ => none := by
  have hvalue := h.value_eq hfuel hrest
  -- The first character is asked for only since a closing bracket would end the array.
  obtain ⟨c, cs, rfl, -, hc⟩ := h.starts
  rw [items, h.skipGaps_eq]
  split
  · next heq => exact absurd (List.cons.inj heq).1 hc
  · simp only [hvalue, Option.bind_eq_bind, Option.bind_some]
    split
    · next more _ => cases items fuel more <;> rfl
    · rfl
    · rfl

theorem items_last (h : Reads text d) (hfuel : text.length ≤ fuel) :
    items (fuel + 1) (text ++ ']' :: rest) = some ([d], rest) :=
  items_item h hfuel (Numeral.ends_cons rfl)

theorem items_next (h : Reads text d) (hfuel : text.length ≤ fuel) :
    items (fuel + 1) (text ++ ',' :: ' ' :: rest) =
      (items fuel rest).map fun (ds, left) => (d :: ds, left) := by
  have hgap : items fuel (' ' :: rest) = items fuel rest := by cases fuel <;> rfl
  rw [← hgap]
  exact items_item h hfuel (Numeral.ends_cons rfl)

/-- Items are read one after another, up to the closing bracket. -/
theorem items_joined {texts : List (List Char)} (h : List.Forall₂ Reads texts ds)
    (hfuel : ([',', ' '].intercalate texts).length < fuel) :
    items fuel ([',', ' '].intercalate texts ++ ']' :: rest) = some (ds, rest) := by
  -- An item is shorter than the text that is left, so the fuel lasts for both.
  induction h generalizing fuel with
  | nil =>
    cases fuel with
    | zero => cases hfuel
    | succ fuel => rfl
  | @cons text d texts ds htext htexts ih =>
    obtain ⟨fuel, rfl⟩ : ∃ k, fuel = k + 1 := ⟨fuel - 1, by omega⟩
    cases htexts with
    | nil =>
      rw [List.intercalate_singleton] at hfuel ⊢
      exact items_last htext (by omega)
    | cons _ _ =>
      rw [List.intercalate_cons_cons] at hfuel ⊢
      rw [List.append_assoc, List.append_assoc]
      simp only [List.length_append, List.length_cons] at hfuel
      exact (items_next htext (by omega)).trans (congrArg (Option.map _) (ih (by omega)))

theorem reads_array {texts : List (List Char)} (h : List.Forall₂ Reads texts ds) :
    Reads ('[' :: ([',', ' '].intercalate texts ++ [']'])) (.array ds) where
  starts := ⟨'[', _, rfl, rfl, by decide⟩
  value_succ {fuel rest} hfuel _ := by
    simp only [List.length_cons, List.length_append] at hfuel
    rw [List.cons_append, List.append_assoc, value, skipGaps_cons rfl]
    exact congrArg (Option.map _) (items_joined h (by omega))

theorem isTokenChar_of_isIdentifier (hname : Text.isIdentifier name) :
    ∀ c ∈ name, Numeral.isTokenChar c := by
  intro c hc
  rcases Text.isWordChar_or_of_isIdentifier hname c hc with h | h <;> simp [Numeral.isTokenChar, h]

theorem fields_field (hname : Text.isIdentifier name) (h : Reads text d)
    (hfuel : text.length ≤ fuel) (hrest : Numeral.Ends rest) :
    fields (fuel + 1) (name ++ ':' :: ' ' :: (text ++ rest)) =
      match skipGaps rest with
      | ',' :: more => (fields fuel more).map fun (fs, left) => ((name, d) :: fs, left)
      | '\x7d' :: left => some ([(name, d)], left)
      | _ => none := by
  have hvalue := h.value_eq hfuel hrest
  have htoken := isTokenChar_of_isIdentifier hname
  have htake (more : List Char) : (name ++ ':' :: more).takeWhile Numeral.isTokenChar = name :=
    Numeral.takeWhile_token htoken (Numeral.ends_cons rfl)
  obtain ⟨c, cs, rfl⟩ : ∃ c cs, name = c :: cs := by
    cases name with
    | nil => cases hname
    | cons c cs => exact ⟨c, cs, rfl⟩
  have hc : Numeral.isTokenChar c := htoken c List.mem_cons_self
  have hgap : isGap c = false := isGap_of_isTokenChar hc
  rw [fields, List.cons_append, skipGaps_cons hgap]
  split
  · next heq =>
    rw [(List.cons.inj heq).1] at hc
    cases hc
  · rw [← List.cons_append, htake, if_pos hname, List.drop_left, skipGaps_cons rfl]
    have hgap' : value fuel (' ' :: (text ++ rest)) = value fuel (text ++ rest) := by
      cases fuel <;> rfl
    simp only [colon?, Option.bind_eq_bind, Option.bind_some, hgap', hvalue]
    split
    · next more _ => cases fields fuel more <;> rfl
    · rfl
    · rfl

theorem fields_last (hname : Text.isIdentifier name) (h : Reads text d)
    (hfuel : text.length ≤ fuel) :
    fields (fuel + 1) (name ++ ':' :: ' ' :: (text ++ '\x7d' :: rest)) = some ([(name, d)], rest) :=
  fields_field hname h hfuel (Numeral.ends_cons rfl)

theorem fields_next (hname : Text.isIdentifier name) (h : Reads text d)
    (hfuel : text.length ≤ fuel) :
    fields (fuel + 1) (name ++ ':' :: ' ' :: (text ++ ',' :: ' ' :: rest)) =
      (fields fuel rest).map fun (fs, left) => ((name, d) :: fs, left) := by
  have hgap : fields fuel (' ' :: rest) = fields fuel rest := by cases fuel <;> rfl
  rw [← hgap]
  exact fields_field hname h hfuel (Numeral.ends_cons rfl)

/-- A text that holds nothing else is read as a whole. -/
theorem Reads.read?_eq (h : Reads text d) : read? text = some d := by
  have hvalue := h.value_eq le_rfl Numeral.ends_nil
  rw [List.append_nil] at hvalue
  simp only [read?, hvalue, skipGaps, List.dropWhile_nil, if_true]

end Nested

end Data

end Patchbay
