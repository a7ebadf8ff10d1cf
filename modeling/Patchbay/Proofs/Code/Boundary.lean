import Mathlib
import Patchbay.Proofs.Text.Margin

/-!
Where rendering fails. The margin of a raw text is counted in bytes, and its white space may be of
different sizes, so that the margin can end inside a character of some line. This is the only
failure there is.
-/
namespace Patchbay

/-- The margin that the lines of the text share is whole characters on each of them. -/
def Text.Divisible (text : String) : Prop :=
  ∀ line ∈ lines text.toList, Boundary (sharedIndentation (lines text.toList)) line

/-- All white space in front of the lines of the text is of one size. -/
def Text.UniformMargin (text : String) : Prop :=
  ∃ size, ∀ line ∈ lines text.toList, ∀ c ∈ line.takeWhile isBlank, c.utf8Size = size

namespace Code

variable {code : Code} {items : List Code} {text : String} {fault : Fault}

theorem exists_rawLines_iff : (∃ ls, rawLines text = .ok ls) ↔ Text.Divisible text := by
  rw [Text.Divisible, ← Text.exists_dedent_iff, rawLines]
  cases Text.dedent text.toList with
  | none => simp
  | some outs => simp

theorem fault_of_rawLines (h : rawLines text = .error fault) : fault = .splitCharacter := by
  unfold rawLines at h
  split at h
  · cases h
  · cases h
    rfl

mutual

theorem exists_lines_iff : (code : Code) →
    ((∃ ls, code.lines = .ok ls) ↔ ∀ text ∈ code.rawTexts, Text.Divisible text)
  | raw text => by simp [lines, rawTexts, exists_rawLines_iff]
  | block items => exists_linesOfAll_iff items
  | binding name init => by simp [lines, rawTexts]
  | function name params body => by
    rw [rawTexts, ← exists_lines_iff body]
    constructor
    · rintro ⟨ls, h⟩
      obtain ⟨inner, hinner, -⟩ := bind_eq_ok.1 h
      exact ⟨inner, hinner⟩
    · rintro ⟨inner, hinner⟩
      exact ⟨_, by rw [lines, hinner]; rfl⟩

theorem exists_linesOfAll_iff : (items : List Code) →
    ((∃ ls, linesOfAll items = .ok ls) ↔ ∀ text ∈ rawTextsOfAll items, Text.Divisible text)
  | [] => by simp [linesOfAll, rawTextsOfAll]
  | item :: items => by
    rw [rawTextsOfAll, List.forall_mem_append, ← exists_lines_iff item,
      ← exists_linesOfAll_iff items]
    constructor
    · rintro ⟨ls, h⟩
      obtain ⟨first, hfirst, h⟩ := bind_eq_ok.1 h
      obtain ⟨others, hothers, -⟩ := bind_eq_ok.1 h
      exact ⟨⟨first, hfirst⟩, ⟨others, hothers⟩⟩
    · rintro ⟨⟨first, hfirst⟩, ⟨others, hothers⟩⟩
      exact ⟨_, by rw [linesOfAll, hfirst, hothers]; rfl⟩

end

mutual

theorem fault_of_lines : (code : Code) → {fault : Fault} → code.lines = .error fault →
    fault = .splitCharacter
  | raw text, fault, h => fault_of_rawLines h
  | block items, fault, h => fault_of_linesOfAll items h
  | binding name init, fault, h => by cases h
  | function name params body, fault, h => by
    rcases bind_eq_error.1 h with h | ⟨inner, -, h⟩
    · exact fault_of_lines body h
    · cases h

theorem fault_of_linesOfAll : (items : List Code) → {fault : Fault} →
    linesOfAll items = .error fault → fault = .splitCharacter
  | [], fault, h => by cases h
  | item :: items, fault, h => by
    rcases bind_eq_error.1 h with h | ⟨first, -, h⟩
    · exact fault_of_lines item h
    rcases bind_eq_error.1 h with h | ⟨others, -, h⟩
    · exact fault_of_linesOfAll items h
    · cases h

end

theorem exists_render_iff :
    (∃ text, code.render = .ok text) ↔ ∀ text ∈ code.rawTexts, Text.Divisible text := by
  rw [← exists_lines_iff, render]
  cases code.lines with
  | error fault => simp [Except.map]
  | ok ls => simp [Except.map]

theorem fault_of_render (h : code.render = .error fault) : fault = .splitCharacter := by
  rw [render] at h
  cases hlines : code.lines with
  | error cause =>
    rw [hlines] at h
    cases h
    exact fault_of_lines code hlines
  | ok ls =>
    rw [hlines] at h
    cases h

theorem render_eq_error_iff :
    code.render = .error .splitCharacter ↔ ¬ ∃ text, code.render = .ok text := by
  cases h : code.render with
  | error fault => simp [fault_of_render h]
  | ok text => simp

/-- A fragment has a text exactly if all margins of its raw texts are whole characters, as they are
where the white space in front of the lines is of one size. Otherwise some margin ends inside a
character, and rendering fails for that. -/
theorem renders_iff_divisible (code : Code) :
    ((∃ text, code.render = .ok text) ↔ ∀ raw ∈ code.rawTexts, Text.Divisible raw) ∧
    (code.render = .error .splitCharacter ↔ ∃ raw ∈ code.rawTexts, ∃ line ∈ Text.lines raw.toList,
      ¬ Text.Boundary (Text.sharedIndentation (Text.lines raw.toList)) line) ∧
    ((∀ raw ∈ code.rawTexts, Text.UniformMargin raw) → ∃ text, code.render = .ok text) := by
  refine ⟨exists_render_iff, ?_, fun h => exists_render_iff.2 fun raw hraw => ?_⟩
  · rw [render_eq_error_iff, exists_render_iff]
    simp only [Text.Divisible, not_forall, exists_prop]
  · obtain ⟨size, hsize⟩ := h raw hraw
    exact fun line hline => Text.boundary_of_uniform hsize hline

/-- A space of two bytes in front of one line and a space of one byte in front of the other. -/
def uneven : String := "\u00a0x\n y"

/-- So a fragment need not have a text. -/
theorem render_uneven : (raw uneven).render = .error .splitCharacter ∧
    Text.lines uneven.toList = [['\u00a0', 'x'], [' ', 'y']] ∧
    Text.sharedIndentation (Text.lines uneven.toList) = 1 ∧
    ¬ Text.Boundary 1 ['\u00a0', 'x'] := by
  have hlines : Text.lines uneven.toList = [['\u00a0', 'x'], [' ', 'y']] := by decide
  refine ⟨?_, hlines, by rw [hlines]; decide, fun h => ?_⟩
  · rfl
  · obtain ⟨ds, hds⟩ := Text.exists_dropBytes_iff.2 h
    cases hds

end Code

end Patchbay
