import Patchbay.Code.Basic
import Patchbay.Proofs.Except

/-!
Rendering comes to an end where raw texts are in ASCII: their characters are single bytes, so no
line is cut inside of one. A text that is a single line without white space at its ends is left as
it is.
-/
namespace Patchbay

namespace Text

/-- Every character is a single byte. -/
def Ascii (cs : List Char) : Prop := ∀ c ∈ cs, c.utf8Size = 1

variable {cs ds line text : List Char} {n : Nat}

theorem Ascii.of_subset (h : Ascii cs) (hsub : ds ⊆ cs) : Ascii ds := fun c hc => h c (hsub hc)

theorem Ascii.append (h : Ascii cs) (h' : Ascii ds) : Ascii (cs ++ ds) := by
  intro c hc
  exact (List.mem_append.1 hc).elim (h c) (h' c)

theorem Ascii.byteLength_eq (h : Ascii cs) : byteLength cs = cs.length := by
  induction cs with
  | nil => rfl
  | cons c cs ih =>
    obtain ⟨hc, hcs⟩ := List.forall_mem_cons.1 h
    rw [byteLength_cons, hc, ih hcs, List.length_cons, Nat.add_comm]

theorem Ascii.dropBytes_eq (h : Ascii cs) (hn : n ≤ cs.length) :
    dropBytes n cs = some (cs.drop n) := by
  induction n generalizing cs with
  | zero => rw [dropBytes_zero, List.drop_zero]
  | succ n ih =>
    cases cs with
    | nil => cases hn
    | cons c cs =>
      obtain ⟨hc, hcs⟩ := List.forall_mem_cons.1 h
      rw [dropBytes, hc, if_pos (Nat.le_add_left 1 n), Nat.add_sub_cancel, List.drop_succ_cons]
      exact ih hcs (Nat.le_of_succ_le_succ hn)

theorem subset_intercalate {sep : List Char} {pieces : List (List Char)} (h : cs ∈ pieces) :
    cs ⊆ sep.intercalate pieces := by
  induction pieces with
  | nil => cases h
  | cons first rest ih =>
    cases rest with
    | nil =>
      obtain rfl := List.mem_singleton.1 h
      simp
    | cons second rest =>
      rw [List.intercalate_cons_cons]
      rcases List.mem_cons.1 h with rfl | h
      · exact List.subset_append_of_subset_left _ (List.subset_append_left _ _)
      · exact List.subset_append_of_subset_right _ (ih h)

theorem trimEnd_subset (cs : List Char) : trimEnd cs ⊆ cs := by
  intro c hc
  have hc := List.mem_reverse.1 hc
  exact List.mem_reverse.1 ((List.dropWhile_sublist _).subset hc)

theorem subset_of_mem_lines (h : line ∈ lines text) : line ⊆ text := by
  obtain ⟨piece, hpiece, rfl⟩ := List.mem_map.1 (List.mem_filter.1 h).1
  have hsub : piece ⊆ ['\n'].intercalate (text.splitOn '\n') := subset_intercalate hpiece
  rw [List.intercalate_splitOn] at hsub
  exact List.Subset.trans (trimEnd_subset piece) hsub

theorem Ascii.indentation_le (h : Ascii line) : indentation line ≤ line.length := by
  have hblank := h.of_subset (List.takeWhile_sublist isBlank).subset
  rw [indentation, hblank.byteLength_eq]
  exact (List.takeWhile_sublist isBlank).length_le

theorem sharedIndentation_le {ls : List (List Char)} (h : line ∈ ls) :
    sharedIndentation ls ≤ indentation line := by
  have hmem : indentation line ∈ ls.map indentation := List.mem_map_of_mem h
  unfold sharedIndentation
  cases hmin : (ls.map indentation).min? with
  | none => exact Nat.zero_le _
  | some n => exact (List.min?_eq_some_iff.1 hmin).2 _ hmem

/-- The indentation that all lines share is made of single bytes. -/
theorem Ascii.dedent_eq (h : Ascii text) :
    dedent text = some ((lines text).map (·.drop (sharedIndentation (lines text)))) := by
  refine mapM_eq_some_iff.2 (List.forall₂_map_right_iff.2 (List.forall₂_same.2 ?_))
  intro line hline
  have hascii := h.of_subset (subset_of_mem_lines hline)
  exact hascii.dropBytes_eq (Nat.le_trans (sharedIndentation_le hline) hascii.indentation_le)

/-- A line as it is rendered: it has no line feed, and its last character is not white space. -/
structure Trimmed (line : List Char) : Prop where
  newline : '\n' ∉ line
  last : ∃ front c, line = front ++ [c] ∧ isBlank c = false

theorem Trimmed.trimEnd_eq (h : Trimmed text) : trimEnd text = text := by
  obtain ⟨front, c, rfl, hc⟩ := h.last
  simp [trimEnd, hc]

/-- A line without white space at its ends. -/
structure Tidy (text : List Char) : Prop where
  newline : '\n' ∉ text
  first : ∃ c rest, text = c :: rest ∧ isBlank c = false
  last : ∃ rest c, text = rest ++ [c] ∧ isBlank c = false

theorem Tidy.trimmed (h : Tidy text) : Trimmed text := ⟨h.newline, h.last⟩

theorem Tidy.lines_eq (h : Tidy text) : lines text = [text] := by
  have hsplit : text.splitOn '\n' = [text] := by
    apply List.splitOnP_eq_singleton
    intro c hc
    have hne : c ≠ '\n' := fun e => h.newline (e ▸ hc)
    simpa using hne
  obtain ⟨c, rest, hne, -⟩ := h.first
  rw [lines, hsplit, List.map_singleton, h.trimmed.trimEnd_eq]
  simp [hne]

theorem Tidy.dedent_eq (h : Tidy text) : dedent text = some [text] := by
  obtain ⟨c, rest, hfirst, hc⟩ := h.first
  have hindentation : indentation text = 0 := by
    simp [indentation, hfirst, hc]
  have hshared : sharedIndentation [text] = 0 := by
    simp [sharedIndentation, hindentation]
  rw [dedent, h.lines_eq, hshared]
  simp

end Text

namespace Code

mutual

/-- The raw texts in a fragment. -/
def rawTexts : Code → List String
  | raw text => [text]
  | block items => rawTextsOfAll items
  | binding _ _ => []
  | function _ _ body => rawTexts body

def rawTextsOfAll : List Code → List String
  | [] => []
  | item :: items => rawTexts item ++ rawTextsOfAll items

end

mutual

theorem exists_lines : (code : Code) → (∀ text ∈ code.rawTexts, Text.Ascii text.toList) →
    ∃ ls, code.lines = .ok ls
  | raw text, h => by
    have hascii := h text (by simp [rawTexts])
    exact ⟨_, by rw [lines, rawLines, hascii.dedent_eq]⟩
  | block items, h => exists_linesOfAll items h
  | binding name init, _ => ⟨_, rfl⟩
  | function name params body, h => by
    obtain ⟨inner, hinner⟩ := exists_lines body h
    exact ⟨_, by rw [lines, hinner]; rfl⟩

theorem exists_linesOfAll : (items : List Code) →
    (∀ text ∈ rawTextsOfAll items, Text.Ascii text.toList) → ∃ ls, linesOfAll items = .ok ls
  | [], _ => ⟨_, rfl⟩
  | item :: items, h => by
    obtain ⟨first, hfirst⟩ := exists_lines item fun text ht => h text (List.mem_append_left _ ht)
    obtain ⟨others, hothers⟩ :=
      exists_linesOfAll items fun text ht => h text (List.mem_append_right _ ht)
    exact ⟨_, by rw [linesOfAll, hfirst, hothers]; rfl⟩

end

/-- Tidy raw texts are lines. -/
theorem linesOfAll_raw {texts : List String} (h : ∀ text ∈ texts, Text.Tidy text.toList) :
    linesOfAll (texts.map raw) = .ok texts := by
  induction texts with
  | nil => rfl
  | cons text texts ih =>
    obtain ⟨htext, htexts⟩ := List.forall_mem_cons.1 h
    simp [linesOfAll, lines, rawLines, htext.dedent_eq, ih htexts, bind, Except.bind, pure,
      Except.pure]

end Code

end Patchbay
