import Mathlib
import Patchbay.Toml.Text
import Patchbay.Toml.Writer

/-!
Texts that were written are read again, in whichever of the four forms they were written. What
needs care is a run of quotes next to the closing ones: a reader decides by the quotes that follow
how many of them belong to the text.
-/
namespace Patchbay.Toml

section Characters

variable {c : Char}

theorem isPrintable_of_not_isControl (hc : isControl c = false) (hn : c ≠ '\n') :
    isPrintable c := by
  by_cases ht : c = '\t'
  · simp [isPrintable, ht]
  · simp only [isControl, ne_eq, ht, not_false_eq_true, decide_true, Bool.and_true, hn,
      Bool.or_eq_false_iff, decide_eq_false_iff_not] at hc
    simp only [isPrintable, ht, decide_false, Bool.false_or, ne_eq, Bool.and_eq_true,
      decide_eq_true_eq]
    omega

/-- The two digits of a character that has no name. -/
theorem upperHexDigit_spec : ∀ n < 128,
    isHexDigit (upperHexDigit (n / 16)) ∧ isHexDigit (upperHexDigit (n % 16)) ∧
      valueOf 16 ['0', '0', upperHexDigit (n / 16), upperHexDigit (n % 16)] = n := by
  decide

theorem unicodeEscape_upperHexDigit (hc : c.toNat < 128) (rest : List Char) :
    unicodeEscape 4
      ('0' :: '0' :: upperHexDigit (c.toNat / 16) :: upperHexDigit (c.toNat % 16) :: rest) =
        some (c, rest) := by
  obtain ⟨hhigh, hlow, hvalue⟩ := upperHexDigit_spec c.toNat hc
  have hdigits : ['0', '0', upperHexDigit (c.toNat / 16), upperHexDigit (c.toNat % 16)].all
      isHexDigit := by
    simp only [List.all_cons, hhigh, hlow]
    rfl
  have hvalid : c.toNat.isValidChar := c.valid
  simp only [unicodeEscape, List.take_succ_cons, List.take_zero, List.drop_succ_cons,
    List.drop_zero, hvalue, hdigits, hvalid]
  simp

/-- An escape is told from a line that goes on by its first character. -/
structure Escapes (cs : List Char) (c : Char) : Prop where
  read : ∀ rest, escape (cs ++ rest) = some (c, rest)
  onLine : ∀ rest, lineContinuation? (cs ++ rest) = none

theorem newline?_cons (hn : c ≠ '\n') (hr : c ≠ '\r') (cs : List Char) :
    newline? (c :: cs) = none := by
  unfold newline?
  split
  · next h => exact absurd (List.cons.inj h).1 hn
  · next h => exact absurd (List.cons.inj h).1 hr
  · rfl

theorem Escapes.of_cons {d : Char} {cs : List Char} (hspace : isSpace d = false) (hn : d ≠ '\n')
    (hr : d ≠ '\r') (read : ∀ rest, escape (d :: cs ++ rest) = some (c, rest)) :
    Escapes (d :: cs) c := by
  refine ⟨read, fun rest => ?_⟩
  have hskip : skipSpaces (d :: cs ++ rest) = d :: cs ++ rest :=
    List.dropWhile_cons_of_neg (by simp [hspace])
  rw [lineContinuation?, hskip, List.cons_append, newline?_cons hn hr, Option.map_none]

theorem escapes_quote : Escapes ['"'] '"' := .of_cons rfl (by decide) (by decide) fun _ => rfl

/-- A character is written as it is or with an escape. -/
theorem escaped_cases (c : Char) :
    (escaped c = [c] ∧ isPrintable c ∧ c ≠ '\\') ∨ ∃ cs, escaped c = '\\' :: cs ∧ Escapes cs c := by
  rcases eq_or_ne c '\x08' with rfl | hb
  · exact .inr ⟨['b'], rfl, .of_cons rfl (by decide) (by decide) fun _ => rfl⟩
  rcases eq_or_ne c '\t' with rfl | ht
  · exact .inr ⟨['t'], rfl, .of_cons rfl (by decide) (by decide) fun _ => rfl⟩
  rcases eq_or_ne c '\x0c' with rfl | hf
  · exact .inr ⟨['f'], rfl, .of_cons rfl (by decide) (by decide) fun _ => rfl⟩
  rcases eq_or_ne c '\r' with rfl | hr
  · exact .inr ⟨['r'], rfl, .of_cons rfl (by decide) (by decide) fun _ => rfl⟩
  rcases eq_or_ne c '\\' with rfl | hs
  · exact .inr ⟨['\\'], rfl, .of_cons rfl (by decide) (by decide) fun _ => rfl⟩
  by_cases hlow : c.toNat < 0x20 ∨ c.toNat = 0x7f
  · refine .inr ⟨_, by rw [escaped, if_neg hb, if_neg ht, if_neg hf, if_neg hr, if_neg hs,
      if_pos hlow], .of_cons rfl (by decide) (by decide) fun rest => ?_⟩
    exact unicodeEscape_upperHexDigit (by omega) rest
  · refine .inl ⟨by rw [escaped, if_neg hb, if_neg ht, if_neg hf, if_neg hr, if_neg hs,
      if_neg hlow], ?_, hs⟩
    simp only [isPrintable, Bool.or_eq_true, Bool.and_eq_true, decide_eq_true_eq]
    omega

end Characters

section OneLine

variable {c : Char} {cs rest : List Char}

theorem escaped_head_ne (hc : c ≠ '"') : ∃ d r, d ≠ '"' ∧ escaped c = d :: r := by
  rcases escaped_cases c with ⟨hself, -, -⟩ | ⟨es, hescaped, -⟩
  · exact ⟨c, [], hc, hself⟩
  · exact ⟨'\\', es, by decide, hescaped⟩

theorem escapedOnLine_head_ne (c : Char) : ∃ d r, d ≠ '"' ∧ escapedOnLine c = d :: r := by
  unfold escapedOnLine
  split
  · exact ⟨'\\', _, by decide, rfl⟩
  split
  · exact ⟨'\\', _, by decide, rfl⟩
  · next hc _ => exact escaped_head_ne hc

theorem basicBody_quote (rest : List Char) : basicBody ('"' :: rest) = some ([], rest) := by
  rw [basicBody.eq_def]
  rfl

theorem basicBody_escape {es : List Char} (h : Escapes es c) (rest : List Char) :
    basicBody ('\\' :: (es ++ rest)) =
      (basicBody rest).map fun (text, left) => (c :: text, left) := by
  rw [basicBody.eq_def]
  simp only
  split
  · next heq =>
    rw [h.read] at heq
    cases heq
    rfl
  · next heq =>
    rw [h.read] at heq
    cases heq

theorem basicBody_char (hc : isPrintable c) (hq : c ≠ '"') (hs : c ≠ '\\') :
    basicBody (c :: cs) = (basicBody cs).map fun (text, left) => (c :: text, left) := by
  rw [basicBody.eq_def]
  split
  · next h => cases h
  · next h => exact absurd (List.cons.inj h).1 hq
  · next h => exact absurd (List.cons.inj h).1 hs
  · next h =>
    obtain ⟨rfl, rfl⟩ := List.cons.inj h
    rw [if_pos hc]

/-- The basic form is read up to its closing quote. -/
theorem basicBody_escapedOnLine (cs rest : List Char) :
    basicBody (cs.flatMap escapedOnLine ++ '"' :: rest) = some (cs, rest) := by
  induction cs with
  | nil => exact basicBody_quote rest
  | cons c cs ih =>
    rw [List.flatMap_cons, List.append_assoc, escapedOnLine]
    split
    · next h =>
      rw [h]
      exact (basicBody_escape escapes_quote _).trans (congrArg (Option.map _) ih)
    split
    · next h =>
      have hes : Escapes ['n'] '\n' := .of_cons rfl (by decide) (by decide) fun _ => rfl
      rw [h]
      exact (basicBody_escape hes _).trans (congrArg (Option.map _) ih)
    · next hq hn =>
      rcases escaped_cases c with ⟨hself, hprint, hs⟩ | ⟨es, hescaped, hes⟩
      · rw [hself, List.cons_append, List.nil_append, basicBody_char hprint hq hs, ih]
        rfl
      · rw [hescaped, List.cons_append, basicBody_escape hes, ih]
        rfl

/-- The literal form shows the text as it is. -/
theorem literalBody_append (hprint : ∀ c ∈ cs, isPrintable c) (hquote : '\'' ∉ cs) :
    literalBody (cs ++ '\'' :: rest) = some (cs, rest) := by
  induction cs with
  | nil => rfl
  | cons c cs ih =>
    have hc : c ≠ '\'' := fun h => hquote (by simp [h])
    rw [List.cons_append, literalBody.eq_def]
    split
    · next h => cases h
    · next h => exact absurd (List.cons.inj h).1 hc
    · next h =>
      obtain ⟨rfl, rfl⟩ := List.cons.inj h
      rw [if_pos (hprint c (by simp)), ih (fun d hd => hprint d (by simp [hd]))
        (fun hmem => hquote (by simp [hmem]))]
      rfl

end OneLine

section Closing

variable {quote d : Char} {j : ℕ} {rest : List Char}

theorem closing?_cons (hd : d ≠ quote) : closing? quote (d :: rest) = none := by
  rcases rest with _ | ⟨a, _ | ⟨b, rest⟩⟩ <;> simp [closing?, hd]

/-- Fewer than three quotes in a row do not close a text. -/
theorem closing?_eq_none (hj : j ≤ 2) (hd : d ≠ quote) :
    closing? quote (List.replicate j quote ++ d :: rest) = none := by
  match j with
  | 0 => exact closing?_cons hd
  | 1 => rcases rest with _ | ⟨a, rest⟩ <;> simp [closing?, hd]
  | 2 => simp [closing?, List.replicate, hd]

/-- Up to two quotes in front of the closing ones belong to the text. -/
theorem closing?_eq_some (hj : j ≤ 2) (hd : d ≠ quote) :
    closing? quote (List.replicate j quote ++ quote :: quote :: quote :: d :: rest) =
      some (List.replicate j quote, d :: rest) := by
  match j with
  | 0 => rcases rest with _ | ⟨a, rest⟩ <;> simp [closing?, hd]
  | 1 => simp [closing?, hd]
  | 2 => simp [closing?, List.replicate]

end Closing

section BasicLines

variable {c d : Char} {k : ℕ} {cs rest : List Char}

/-- The quotes at the beginning of what is written are few: either they are all of the text, or
something else follows. -/
theorem escapedOnLines_cases (hk : k ≤ 2) (cs : List Char) :
    (∃ j, j + k ≤ 2 ∧ cs = List.replicate j '"' ∧ escapedOnLines k cs = List.replicate j '"') ∨
      ∃ j d r, j + k ≤ 2 ∧ d ≠ '"' ∧ escapedOnLines k cs = List.replicate j '"' ++ d :: r := by
  induction cs generalizing k with
  | nil => exact .inl ⟨0, by omega, rfl, rfl⟩
  | cons c cs ih =>
    by_cases hc : c = '"'
    · by_cases hlt : k < 2
      · rw [escapedOnLines, if_pos hc, if_pos hlt]
        rcases ih (k := k + 1) (by omega) with
          ⟨j, hj, htext, hwritten⟩ | ⟨j, d, r, hj, hd, hwritten⟩
        · exact .inl ⟨j + 1, by omega, by rw [hc, htext, List.replicate_succ],
            by rw [hwritten, List.replicate_succ]⟩
        · exact .inr ⟨j + 1, d, r, by omega, hd, by rw [hwritten, List.replicate_succ]; rfl⟩
      · rw [escapedOnLines, if_pos hc, if_neg hlt]
        exact .inr ⟨0, '\\', _, by omega, by decide, rfl⟩
    · obtain ⟨d, r, hd, hr⟩ :
          ∃ d r, d ≠ '"' ∧ (if c = '\n' then ['\n'] else escaped c) = d :: r := by
        split
        · exact ⟨'\n', [], by decide, rfl⟩
        · exact escaped_head_ne hc
      rw [escapedOnLines, if_neg hc, hr]
      exact .inr ⟨0, d, _, by omega, hd, rfl⟩

theorem multilineBasicBody_closed {text left : List Char}
    (h : closing? '"' cs = some (text, left)) :
    multilineBasicBody cs = some (text, left) := by
  rw [multilineBasicBody.eq_def, h]

theorem multilineBasicBody_escape {es : List Char} (h : Escapes es c) (rest : List Char) :
    multilineBasicBody ('\\' :: (es ++ rest)) =
      (multilineBasicBody rest).map fun (text, left) => (c :: text, left) := by
  rw [multilineBasicBody.eq_def, closing?_cons (by decide)]
  simp only
  split
  · next heq =>
    rw [h.onLine] at heq
    cases heq
  · split
    · next heq =>
      rw [h.read] at heq
      cases heq
      rfl
    · next heq =>
      rw [h.read] at heq
      cases heq

theorem multilineBasicBody_newline (rest : List Char) :
    multilineBasicBody ('\n' :: rest) =
      (multilineBasicBody rest).map fun (text, left) => ('\n' :: text, left) := by
  rw [multilineBasicBody.eq_def, closing?_cons (by decide)]
  rfl

theorem multilineBasicBody_char (hclosing : closing? '"' (c :: cs) = none) (hc : isPrintable c)
    (hs : c ≠ '\\') :
    multilineBasicBody (c :: cs) =
      (multilineBasicBody cs).map fun (text, left) => (c :: text, left) := by
  have hn : c ≠ '\n' := by rintro rfl; cases hc
  have hr : c ≠ '\r' := by rintro rfl; cases hc
  rw [multilineBasicBody.eq_def, hclosing]
  simp only
  split
  · next h => cases h
  · next h => exact absurd (List.cons.inj h).1 hs
  · next h => exact absurd (List.cons.inj h).1 hn
  · next h => exact absurd (List.cons.inj h).1 hr
  · next h =>
    obtain ⟨rfl, rfl⟩ := List.cons.inj h
    rw [if_pos hc]

/-- The basic form on several lines is read up to its closing quotes. -/
theorem multilineBasicBody_escapedOnLines (hk : k ≤ 2) (hd : d ≠ '"') (cs rest : List Char) :
    multilineBasicBody (escapedOnLines k cs ++ '"' :: '"' :: '"' :: d :: rest) =
      some (cs, d :: rest) := by
  induction cs generalizing k with
  | nil => exact multilineBasicBody_closed (closing?_eq_some (j := 0) (by omega) hd)
  | cons c cs ih =>
    rcases escapedOnLines_cases hk (c :: cs) with
      ⟨j, hj, htext, hwritten⟩ | ⟨j, e, r, hj, he, hwritten⟩
    · rw [hwritten, htext]
      exact multilineBasicBody_closed (closing?_eq_some (by omega) hd)
    have hclosing : closing? '"'
        (escapedOnLines k (c :: cs) ++ '"' :: '"' :: '"' :: d :: rest) = none := by
      rw [hwritten, List.append_assoc, List.cons_append]
      exact closing?_eq_none (by omega) he
    by_cases hc : c = '"'
    · subst hc
      by_cases hlt : k < 2
      · rw [escapedOnLines, if_pos rfl, if_pos hlt, List.cons_append] at hclosing ⊢
        rw [multilineBasicBody_char hclosing rfl (by decide), ih (by omega)]
        rfl
      · rw [escapedOnLines, if_pos rfl, if_neg hlt]
        exact (multilineBasicBody_escape escapes_quote _).trans
          (congrArg (Option.map _) (ih (k := 0) (by omega)))
    by_cases hn : c = '\n'
    · subst hn
      rw [escapedOnLines, if_neg hc, if_pos rfl]
      exact (multilineBasicBody_newline _).trans
        (congrArg (Option.map _) (ih (k := 0) (by omega)))
    · rw [escapedOnLines, if_neg hc, if_neg hn] at hclosing ⊢
      rcases escaped_cases c with ⟨hself, hprint, hs⟩ | ⟨es, hescaped, hes⟩
      · rw [hself, List.cons_append, List.nil_append, List.cons_append] at hclosing ⊢
        rw [multilineBasicBody_char hclosing hprint hs, ih (by omega)]
        rfl
      · rw [hescaped, List.append_assoc, List.cons_append, multilineBasicBody_escape hes,
          ih (by omega)]
        rfl

end BasicLines

section LiteralLines

variable {c d quote : Char} {n n' : ℕ} {cs rest : List Char}

theorem longestRun_go_mono (h : n ≤ n') (cs : List Char) :
    longestRun.go c n cs ≤ longestRun.go c n' cs := by
  induction cs generalizing n n' with
  | nil => exact h
  | cons d cs ih =>
    rw [longestRun.go, longestRun.go]
    split
    · exact ih (Nat.succ_le_succ h)
    · omega

theorem longestRun_le_cons (d : Char) (cs : List Char) :
    longestRun c cs ≤ longestRun c (d :: cs) := by
  rw [longestRun, longestRun, longestRun.go]
  split
  · exact longestRun_go_mono (by omega) cs
  · omega

/-- The run at the beginning of a text. -/
theorem longestRun_cases (c : Char) (n : ℕ) (cs : List Char) :
    (∃ j, j + n ≤ longestRun.go c n cs ∧ cs = List.replicate j c) ∨
      ∃ j d r, j + n ≤ longestRun.go c n cs ∧ d ≠ c ∧ cs = List.replicate j c ++ d :: r := by
  induction cs generalizing n with
  | nil => exact .inl ⟨0, by rw [longestRun.go]; omega, rfl⟩
  | cons d cs ih =>
    rw [longestRun.go]
    split
    · next hd =>
      rcases ih (n + 1) with ⟨j, hj, htext⟩ | ⟨j, e, r, hj, he, htext⟩
      · exact .inl ⟨j + 1, by omega, by rw [hd, htext, List.replicate_succ]⟩
      · exact .inr ⟨j + 1, e, r, by omega, he, by rw [hd, htext, List.replicate_succ]; rfl⟩
    · next hd => exact .inr ⟨0, d, cs, by omega, hd, rfl⟩

theorem multilineLiteralBody_closed {text left : List Char}
    (h : closing? '\'' cs = some (text, left)) : multilineLiteralBody cs = some (text, left) := by
  rw [multilineLiteralBody.eq_def, h]

theorem multilineLiteralBody_newline (rest : List Char) :
    multilineLiteralBody ('\n' :: rest) =
      (multilineLiteralBody rest).map fun (text, left) => ('\n' :: text, left) := by
  rw [multilineLiteralBody.eq_def, closing?_cons (by decide)]
  rfl

theorem multilineLiteralBody_char (hclosing : closing? '\'' (c :: cs) = none) (hc : isPrintable c) :
    multilineLiteralBody (c :: cs) =
      (multilineLiteralBody cs).map fun (text, left) => (c :: text, left) := by
  have hn : c ≠ '\n' := by rintro rfl; cases hc
  have hr : c ≠ '\r' := by rintro rfl; cases hc
  rw [multilineLiteralBody.eq_def, hclosing]
  simp only
  split
  · next h => cases h
  · next h => exact absurd (List.cons.inj h).1 hn
  · next h => exact absurd (List.cons.inj h).1 hr
  · next h =>
    obtain ⟨rfl, rfl⟩ := List.cons.inj h
    rw [if_pos hc]

/-- The literal form on several lines shows the text as it is, and is read up to its closing
apostrophes. -/
theorem multilineLiteralBody_append (hprint : ∀ c ∈ cs, c = '\n' ∨ isPrintable c)
    (hrun : longestRun '\'' cs ≤ 2) (hd : d ≠ '\'') (rest : List Char) :
    multilineLiteralBody (cs ++ '\'' :: '\'' :: '\'' :: d :: rest) = some (cs, d :: rest) := by
  induction cs with
  | nil => exact multilineLiteralBody_closed (closing?_eq_some (j := 0) (by omega) hd)
  | cons c cs ih =>
    have hrest := ih (fun e he => hprint e (by simp [he])) ((longestRun_le_cons c cs).trans hrun)
    rw [longestRun] at hrun
    rcases longestRun_cases '\'' 0 (c :: cs) with ⟨j, hj, htext⟩ | ⟨j, e, r, hj, he, htext⟩
    · rw [htext]
      exact multilineLiteralBody_closed (closing?_eq_some (by omega) hd)
    have hclosing : closing? '\'' (c :: cs ++ '\'' :: '\'' :: '\'' :: d :: rest) = none := by
      rw [htext, List.append_assoc, List.cons_append]
      exact closing?_eq_none (by omega) he
    rcases hprint c (by simp) with rfl | hc
    · exact (multilineLiteralBody_newline _).trans (congrArg (Option.map _) hrest)
    · exact (multilineLiteralBody_char hclosing hc).trans (congrArg (Option.map _) hrest)

end LiteralLines

section Text

variable {cs body rest : List Char}

theorem Form.of_literal (h : Form.of cs = .literal) : (∀ c ∈ cs, isPrintable c) ∧ '\'' ∉ cs := by
  unfold Form.of at h
  simp only at h
  split_ifs at h with h₁ h₂
  simp only [Bool.and_eq_true, Bool.not_eq_true', List.any_eq_false, decide_eq_true_eq,
    decide_eq_false_iff_not] at h₂
  refine ⟨fun c hc => isPrintable_of_not_isControl ?_ ?_, h₂.1.2⟩
  · simpa using h₂.1.1 c hc
  · rintro rfl
    exact h₂.2 hc

theorem Form.of_multilineLiteral (h : Form.of cs = .multilineLiteral) :
    (∀ c ∈ cs, c = '\n' ∨ isPrintable c) ∧ longestRun '\'' cs ≤ 2 := by
  unfold Form.of at h
  simp only at h
  split_ifs at h with h₁ h₂ h₃ h₄
  simp only [Bool.and_eq_true, Bool.not_eq_true', List.any_eq_false, decide_eq_true_eq] at h₄
  refine ⟨fun c hc => ?_, h₄.2⟩
  by_cases hn : c = '\n'
  · exact .inl hn
  · exact .inr (isPrintable_of_not_isControl (by simpa using h₄.1 c hc) hn)

/-- The line feed behind the opening is written where it would be taken for one. -/
theorem skipFirstNewline_opening (h : '\n' ∉ cs → newline? body = none) :
    skipFirstNewline (opening cs ++ body) = body := by
  unfold opening
  split
  · rfl
  · next hmem => rw [List.nil_append, skipFirstNewline, h hmem, Option.getD_none]

theorem text?_basic (cs rest : List Char) :
    text? ('"' :: (cs.flatMap escapedOnLine ++ '"' :: '\n' :: rest)) = some (cs, '\n' :: rest) := by
  unfold text?
  split
  · next r h =>
    exfalso
    rcases cs with _ | ⟨c, cs⟩
    · cases h
    · obtain ⟨d, r, hd, hr⟩ := escapedOnLine_head_ne c
      rw [List.flatMap_cons, hr] at h
      exact hd (List.cons.inj (List.cons.inj h).2).1
  · next r _ h =>
    obtain rfl := (List.cons.inj h).2
    exact basicBody_escapedOnLine cs _
  · next h => cases (List.cons.inj h).1
  · next h => cases (List.cons.inj h).1
  · next _ h _ _ => exact absurd rfl (h _)

theorem text?_literal (hprint : ∀ c ∈ cs, isPrintable c) (hquote : '\'' ∉ cs) (rest : List Char) :
    text? ('\'' :: (cs ++ '\'' :: '\n' :: rest)) = some (cs, '\n' :: rest) := by
  unfold text?
  split
  · next h => cases (List.cons.inj h).1
  · next h => cases (List.cons.inj h).1
  · next r h =>
    exfalso
    rcases cs with _ | ⟨c, cs⟩
    · cases h
    · rw [(List.cons.inj (List.cons.inj h).2).1] at hquote
      simp at hquote
  · next r _ h =>
    obtain rfl := (List.cons.inj h).2
    exact literalBody_append hprint hquote
  · next h => exact absurd rfl (h _)

theorem text?_multilineBasic (cs rest : List Char) :
    text? ('"' :: '"' :: '"' :: (opening cs ++ (escapedOnLines 0 cs ++
      '"' :: '"' :: '"' :: '\n' :: rest))) = some (cs, '\n' :: rest) := by
  have hread :=
    multilineBasicBody_escapedOnLines (k := 0) (d := '\n') (by omega) (by decide) cs rest
  rw [text?, skipFirstNewline_opening, hread]
  intro hn
  rcases cs with _ | ⟨c, cs⟩
  · rfl
  · have hc : c ≠ '\n' := fun h => hn (by simp [h])
    rw [escapedOnLines, if_neg hc]
    split
    · exact newline?_cons (by decide) (by decide) _
    · rcases escaped_cases c with ⟨hself, hprint, -⟩ | ⟨es, hescaped, -⟩
      · rw [hself]
        exact newline?_cons hc (by rintro rfl; cases hprint) _
      · rw [hescaped]
        exact newline?_cons (by decide) (by decide) _

theorem text?_multilineLiteral (hprint : ∀ c ∈ cs, c = '\n' ∨ isPrintable c)
    (hrun : longestRun '\'' cs ≤ 2) (rest : List Char) :
    text? ('\'' :: '\'' :: '\'' :: (opening cs ++ (cs ++ '\'' :: '\'' :: '\'' :: '\n' :: rest))) =
      some (cs, '\n' :: rest) := by
  rw [text?, skipFirstNewline_opening, multilineLiteralBody_append hprint hrun (by decide)]
  intro hn
  rcases cs with _ | ⟨c, cs⟩
  · rfl
  · have hc : c ≠ '\n' := fun h => hn (by simp [h])
    have hc' : isPrintable c := (hprint c (by simp)).resolve_left hc
    exact newline?_cons hc (by rintro rfl; cases hc') _

/-- Every text is read as it was written. -/
theorem text?_writeText (cs rest : List Char) :
    text? (writeText cs ++ '\n' :: rest) = some (cs, '\n' :: rest) := by
  unfold writeText
  cases h : Form.of cs with
  | basic => simpa using text?_basic cs rest
  | literal =>
    obtain ⟨hprint, hquote⟩ := Form.of_literal h
    simpa using text?_literal hprint hquote rest
  | multilineBasic => simpa using text?_multilineBasic cs rest
  | multilineLiteral =>
    obtain ⟨hprint, hrun⟩ := Form.of_multilineLiteral h
    simpa using text?_multilineLiteral hprint hrun rest

end Text

end Patchbay.Toml
