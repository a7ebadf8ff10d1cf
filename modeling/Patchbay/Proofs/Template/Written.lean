import Patchbay.Proofs.Number.Plain
import Patchbay.Proofs.Template.Parts

/-!
Tokens written back. What a token is scanned as, written as a token again, is the token without the
zeros in front of its indices, and scanning that gives the same again.
-/
namespace Patchbay

/-- Each dollar sign with a backslash in front of it. -/
def escapeDollars (cs : List Char) : List Char :=
  cs.flatMap fun c => if c = '$' then ['\\', '$'] else [c]

def Mark.written : Mark → List Char
  | .char c => escapeDollars [c]
  | .placeholder index => '$' :: (toString index).toList

namespace Piece

def written : Piece → List Char
  | text s => escapeDollars s.toList
  | placeholder index => '$' :: (toString index).toList

def isText : Piece → Bool
  | text _ => true
  | placeholder _ => false

/-- There is a reference, no text is empty, and no two texts stand side by side. -/
structure Joined (pieces : List Piece) : Prop where
  refers : ∃ index, placeholder index ∈ pieces
  nonempty : text "" ∉ pieces
  apart : pieces.IsChain fun a b => ¬(a.isText ∧ b.isText)

variable {ms : List Mark} {pieces : List Piece} {index : ℕ}

theorem placeholder_mem_consChar_iff (c : Char) :
    placeholder index ∈ consChar c pieces ↔ placeholder index ∈ pieces := by
  rcases pieces with _ | ⟨s | k, rest⟩ <;> simp [consChar]

/-- What is made of texts character by character is made of the marks. -/
theorem flatMap_ofMarks {f : Piece → List Char} {g : Mark → List Char}
    (htext : ∀ s, f (text s) = s.toList.flatMap fun c => g (.char c))
    (hplaceholder : ∀ k, f (placeholder k) = g (.placeholder k)) (ms : List Mark) :
    (ofMarks ms).flatMap f = ms.flatMap g := by
  have hcons (c : Char) (pieces : List Piece) :
      (consChar c pieces).flatMap f = g (.char c) ++ pieces.flatMap f := by
    rcases pieces with _ | ⟨s | k, rest⟩ <;> simp [consChar, htext]
  induction ms with
  | nil => rfl
  | cons m ms ih => cases m <;> simp [ofMarks, hcons, hplaceholder, ih]

theorem nonempty_consChar (h : text "" ∉ pieces) (c : Char) : text "" ∉ consChar c pieces := by
  have hne (cs : List Char) : "" ≠ String.ofList (c :: cs) := fun he => by
    simpa using congrArg String.toList he
  rcases pieces with _ | ⟨s | k, rest⟩ <;> simp_all [consChar]

theorem apart_consChar (h : pieces.IsChain fun a b => ¬(a.isText ∧ b.isText)) (c : Char) :
    (consChar c pieces).IsChain fun a b => ¬(a.isText ∧ b.isText) := by
  rcases pieces with _ | ⟨s | k, rest⟩
  · simp [consChar]
  · cases rest <;> simp_all [consChar, isText]
  · simp_all [consChar, isText]

theorem placeholder_mem_ofMarks_iff : placeholder index ∈ ofMarks ms ↔ .placeholder index ∈ ms := by
  induction ms with
  | nil => simp [ofMarks]
  | cons m ms ih => cases m <;> simp [ofMarks, placeholder_mem_consChar_iff, ih]

theorem nonempty_ofMarks (ms : List Mark) : text "" ∉ ofMarks ms := by
  induction ms with
  | nil => simp [ofMarks]
  | cons m ms ih =>
    cases m with
    | placeholder k => simpa [ofMarks] using ih
    | char c => exact nonempty_consChar ih c

theorem apart_ofMarks (ms : List Mark) :
    (ofMarks ms).IsChain fun a b => ¬(a.isText ∧ b.isText) := by
  induction ms with
  | nil => simp [ofMarks]
  | cons m ms ih =>
    cases m with
    | placeholder k => simpa [ofMarks, List.isChain_cons, isText] using ih
    | char c => exact apart_consChar ih c

theorem joined_ofMarks (h : .placeholder index ∈ ms) : Joined (ofMarks ms) :=
  ⟨⟨index, placeholder_mem_ofMarks_iff.2 h⟩, nonempty_ofMarks ms, apart_ofMarks ms⟩

end Piece

namespace Segment

/-- A segment as a token. -/
def written : Segment → String
  | literal a => String.ofList (escapeDollars a.text.toList)
  | text pieces => String.ofList (pieces.flatMap Piece.written)

variable {token ds rest : List Char} {ms : List Mark} {index : ℕ}

theorem any_isPlaceholder_iff : ms.any Mark.isPlaceholder ↔ ∃ index, .placeholder index ∈ ms := by
  rw [List.any_eq_true]
  constructor
  · rintro ⟨_ | index, hm, h⟩
    · cases h
    · exact ⟨index, hm⟩
  · rintro ⟨index, hm⟩
    exact ⟨_, hm, rfl⟩

theorem any_isPlaceholder_iff_refers (h : marks token = .ok ms) :
    ms.any Mark.isPlaceholder ↔ ∃ after, Refers token after := by
  rw [any_isPlaceholder_iff]
  constructor
  · rintro ⟨index, hindex⟩
    obtain ⟨ds, hds, -⟩ := (placeholder_mem_iff h).1 hindex
    obtain ⟨after, hafter, -⟩ := reference_mem_parts_iff.1 hds
    exact ⟨after, hafter⟩
  · rintro ⟨after, hafter⟩
    have hds := reference_mem_parts_iff.2 ⟨after, hafter, rfl⟩
    exact ⟨_, (placeholder_mem_iff h).2 ⟨_, hds, rfl⟩⟩

/-- Without references all marks are characters. -/
theorem eq_map_chars (h : ¬ms.any Mark.isPlaceholder) : ms = (Mark.chars ms).map .char := by
  induction ms with
  | nil => rfl
  | cons m ms ih =>
    cases m with
    | placeholder index => simp [Mark.isPlaceholder] at h
    | char c => exact congrArg (.char c :: ·) (ih (by simpa [Mark.isPlaceholder] using h))

theorem written_ofMarks (ms : List Mark) :
    (ofMarks ms).written = String.ofList (ms.flatMap Mark.written) := by
  unfold ofMarks
  split
  · have htext (s : String) : Piece.written (.text s) =
        s.toList.flatMap fun c => Mark.written (.char c) := by
      simp [Piece.written, Mark.written, escapeDollars]
    rw [written, Piece.flatMap_ofMarks htext fun _ => rfl]
  · next h =>
    rw [written, Atom.text, String.toList_ofList]
    conv_rhs => rw [eq_map_chars h, List.flatMap_map]
    simp [Mark.written, escapeDollars]

section Trimmed

/-- The part without the zeros in front of its index. -/
def Part.trim : Part → Part
  | reference ds => reference (ds.dropWhile (· = '0'))
  | part => part

/-- The token without the zeros in front of its indices. -/
def trimmed (token : List Char) : List Char := ((parts token).map Part.trim).flatMap Part.source

@[simp] theorem trimmed_nil : trimmed [] = [] := by simp [trimmed]

@[simp] theorem trimmed_escape (rest : List Char) :
    trimmed ('\\' :: '$' :: rest) = '\\' :: '$' :: trimmed rest := by
  simp [trimmed, Part.trim, Part.source]

theorem trimmed_reference (hds : ∀ d ∈ ds, d.isDigit) (hrest : ∀ c ∈ rest.head?, ¬c.isDigit) :
    trimmed ('$' :: (ds ++ rest)) = '$' :: (ds.dropWhile (· = '0') ++ trimmed rest) := by
  simp [trimmed, parts_reference hds hrest, Part.trim, Part.source]

theorem trimmed_char {c : Char} (hc : c ≠ '$') (hrest : c = '\\' → rest.head? ≠ some '$') :
    trimmed (c :: rest) = c :: trimmed rest := by
  simp [trimmed, parts_char hc hrest, Part.trim, Part.source]

theorem head?_trimmed (token : List Char) : (trimmed token).head? = token.head? := by
  induction token using token_induction with
  | nil => simp
  | escape rest ih => simp
  | reference ds rest hds hrest ih => simp [trimmed_reference hds hrest]
  | char c rest hc hrest ih => simp [trimmed_char hc hrest]

/-- What follows a part begins as before, so the token comes apart at the same places. -/
theorem parts_trimmed (token : List Char) :
    parts (trimmed token) = (parts token).map Part.trim := by
  induction token using token_induction with
  | nil => simp
  | escape rest ih => simp [ih, Part.trim]
  | reference ds rest hds hrest ih =>
    rw [trimmed_reference hds hrest, parts_reference hds hrest, parts_reference, ih]
    · rfl
    · exact fun d hd => hds d ((List.dropWhile_suffix _).mem hd)
    · rwa [head?_trimmed]
  | char c rest hc hrest ih =>
    rw [trimmed_char hc hrest, parts_char hc hrest, parts_char hc, ih]
    · rfl
    · rwa [head?_trimmed]

theorem mark_trim {part : Part} {m : Mark} (h : part.mark = .ok m) : part.trim.mark = .ok m := by
  cases part with
  | escape => exact h
  | char c => exact h
  | reference ds =>
    obtain ⟨⟨-, hlow, hhigh⟩, rfl⟩ := mark_reference_eq_ok_iff.1 h
    have hvalue := Number.ofDigitChars_dropWhile_zero ds
    refine mark_reference_eq_ok_iff.2 ⟨⟨fun hnil => ?_, hvalue.symm ▸ hlow, hvalue.symm ▸ hhigh⟩,
      congrArg Mark.placeholder hvalue.symm⟩
    rw [← hvalue, hnil] at hlow
    cases hlow

theorem marks_trimmed (h : marks token = .ok ms) : marks (trimmed token) = .ok ms := by
  rw [marks_eq_mapM] at h
  rw [marks_eq_mapM, parts_trimmed]
  refine mapM_eq_ok_of_forall₂ (List.forall₂_map_left_iff.2 ?_)
  exact (forall₂_of_mapM_eq_ok h).imp fun _ _ => mark_trim

/-- An index is written without zeros in front, and all else as it stood there. -/
theorem written_marks (h : marks token = .ok ms) : ms.flatMap Mark.written = trimmed token := by
  induction token using token_induction generalizing ms with
  | nil =>
    rw [marks] at h
    cases h
    simp
  | escape rest ih =>
    rw [marks] at h
    obtain ⟨others, hothers, h⟩ := bind_eq_ok.1 h
    cases h
    simp [Mark.written, escapeDollars, ih hothers]
  | reference ds rest hds hrest ih =>
    rw [marks_reference hds hrest] at h
    obtain ⟨index, hindex, h⟩ := bind_eq_ok.1 h
    obtain ⟨others, hothers, h⟩ := bind_eq_ok.1 h
    cases h
    obtain ⟨⟨-, hlow, -⟩, rfl⟩ := placeholderIndex_eq_ok_iff.1 hindex
    have htext : (toString (Nat.ofDigitChars 10 ds 0)).toList = ds.dropWhile (· = '0') := by
      rw [Number.dropWhile_zero_eq hds, if_neg (Nat.ne_of_gt hlow)]
      exact Nat.toList_repr
    rw [trimmed_reference hds hrest, ← ih hothers, ← htext]
    rfl
  | char c rest hc hrest ih =>
    rw [marks_char hc hrest] at h
    obtain ⟨others, hothers, h⟩ := bind_eq_ok.1 h
    cases h
    simp [trimmed_char hc hrest, Mark.written, escapeDollars, hc, ih hothers]

end Trimmed

section Escaped

theorem head?_escapeDollars (cs : List Char) : (escapeDollars cs).head? ≠ some '$' := by
  cases cs with
  | nil => simp [escapeDollars]
  | cons c cs => by_cases hc : c = '$' <;> simp [escapeDollars, hc]

theorem marks_escapeDollars (cs : List Char) : marks (escapeDollars cs) = .ok (cs.map .char) := by
  induction cs with
  | nil => exact marks.eq_1
  | cons c cs ih =>
    by_cases hc : c = '$'
    · have hcons : escapeDollars (c :: cs) = '\\' :: '$' :: escapeDollars cs := by
        simp [escapeDollars, hc]
      rw [hcons, marks, ih, hc]
      rfl
    · have hcons : escapeDollars (c :: cs) = c :: escapeDollars cs := by simp [escapeDollars, hc]
      rw [hcons, marks_char hc fun _ => head?_escapeDollars cs, ih]
      rfl

/-- A dollar sign behind a backslash is a dollar sign and no more. -/
theorem ofSymbol_escapeDollars (token : String) :
    ofSymbol (String.ofList (escapeDollars token.toList)) = .ok (.literal (.symbol token)) := by
  have hchars : Mark.chars (token.toList.map .char) = token.toList := by
    simp [Mark.chars, List.filterMap_map]
  have hnone : ¬(token.toList.map Mark.char).any Mark.isPlaceholder := by simp [Mark.isPlaceholder]
  rw [ofSymbol, String.toList_ofList, marks_escapeDollars]
  simp only [ofMarks, if_neg hnone, hchars, String.ofList_toList]

end Escaped

theorem ofSymbol_eq_ok_iff {token : String} {s : Segment} :
    ofSymbol token = .ok s ↔ ∃ ms, marks token.toList = .ok ms ∧ s = ofMarks ms := by
  unfold ofSymbol
  cases marks token.toList <;> simp [eq_comm]

/-- A token is scanned if each dollar sign without a backslash has an index behind it. If there is
no such sign it is a symbol, and otherwise a text with references and no empty or neighbouring texts.
Written back it is the token without the zeros in front of its indices, and that is scanned as the
same. A token with a backslash before every dollar sign is scanned as the symbol without these. -/
theorem ofSymbol_and_back (token : String) :
    ((∃ s, ofSymbol token = .ok s) ↔
      ∀ after, Refers token.toList after → IsIndex (after.takeWhile Char.isDigit)) ∧
    (∀ s, ofSymbol token = .ok s →
      ((∃ name, s = .literal (.symbol name)) ↔ ∀ after, ¬Refers token.toList after) ∧
      ((∃ after, Refers token.toList after) → ∃ pieces, s = .text pieces ∧ Piece.Joined pieces) ∧
      s.written = String.ofList (trimmed token.toList) ∧ ofSymbol s.written = .ok s) ∧
    ofSymbol (String.ofList (escapeDollars token.toList)) = .ok (.literal (.symbol token)) := by
  refine ⟨?_, fun s hs => ?_, ofSymbol_escapeDollars token⟩
  · rw [← exists_marks_iff]
    simp only [ofSymbol_eq_ok_iff]
    exact ⟨fun ⟨_, ms, hms, _⟩ => ⟨ms, hms⟩, fun ⟨ms, hms⟩ => ⟨_, ms, hms, rfl⟩⟩
  · obtain ⟨ms, hms, rfl⟩ := ofSymbol_eq_ok_iff.1 hs
    have hwritten : (ofMarks ms).written = String.ofList (trimmed token.toList) := by
      rw [written_ofMarks, written_marks hms]
    have hback : ofSymbol (ofMarks ms).written = .ok (ofMarks ms) := by
      rw [hwritten]
      refine ofSymbol_eq_ok_iff.2 ⟨ms, ?_, rfl⟩
      rw [String.toList_ofList]
      exact marks_trimmed hms
    have hrefers := any_isPlaceholder_iff_refers hms
    refine ⟨?_, fun h => ?_, hwritten, hback⟩
    · rw [← not_exists, ← hrefers]
      unfold ofMarks
      split
      · next h => simp [h]
      · next h => simp [h]
    · obtain ⟨index, hindex⟩ := any_isPlaceholder_iff.1 (hrefers.2 h)
      exact ⟨_, if_pos (hrefers.2 h), Piece.joined_ofMarks hindex⟩

/-- A backslash, a dollar sign behind another, a reference with zeros in front, and a letter. -/
theorem ofSymbol_and_back_price : ∃ s, ofSymbol "\\\\$$007x" = .ok s ∧
    (∃ pieces, s = .text pieces ∧ Piece.Joined pieces) ∧ s.written = "\\\\$$7x" ∧
    ofSymbol "\\\\$$7x" = .ok s := by
  obtain ⟨-, hback, -⟩ := ofSymbol_and_back "\\\\$$007x"
  have hok : (ofSymbol "\\\\$$007x").toBool := by decide +kernel
  cases h : ofSymbol "\\\\$$007x" with
  | error e =>
    rw [h] at hok
    cases hok
  | ok s =>
    obtain ⟨-, htext, hwritten, hagain⟩ := hback s h
    have htrimmed : String.ofList (trimmed "\\\\$$007x".toList) = "\\\\$$7x" := by decide +kernel
    rw [htrimmed] at hwritten
    have hrefers : Refers "\\\\$$007x".toList "007x".toList :=
      ⟨"\\\\$".toList, by decide, by decide⟩
    exact ⟨s, rfl, htext ⟨_, hrefers⟩, hwritten, hwritten ▸ hagain⟩

end Segment

end Patchbay
