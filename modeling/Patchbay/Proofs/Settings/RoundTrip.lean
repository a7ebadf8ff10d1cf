import Mathlib
import Patchbay.Proofs.Toml.Document
import Patchbay.Settings.Document

/-!
Settings survive being written: the document of any settings describes exactly them, so reading it
comes to validating them. No float, prefix or filter is an exception.
-/
namespace Patchbay.Settings

open Toml (Bare Reads Line writeInteger writeFloat writeText)

/-- The text in which a setting is written, and the value it is read as. -/
def line (s : Settings) : Field → Line
  | .bitDepth => ⟨Field.bitDepth.key, writeInteger s.bitDepth.bits, .integer s.bitDepth.bits⟩
  | .sampleRate => ⟨Field.sampleRate.key, writeFloat s.sampleRate, .float s.sampleRate⟩
  | .variablePrefix =>
    ⟨Field.variablePrefix.key, writeText s.variablePrefix.toList, .text s.variablePrefix⟩
  | .logFilter => ⟨Field.logFilter.key, writeText s.logFilter.toList, .text s.logFilter⟩

variable (s : Settings)

theorem toList_toToml : s.toToml.toList = (Field.all.map s.line).flatMap Line.write := by
  simp [toToml, Field.all, line, Line.write]

@[simp] theorem line_key (f : Field) : (s.line f).key = f.key := by cases f <;> rfl

theorem bare_key (f : Field) : Bare f.key := by
  cases f <;> exact ⟨by decide, List.all_eq_true.1 (by decide)⟩

/-- Each setting is read as it was written. -/
theorem reads_line (f : Field) : Reads (s.line f).text (s.line f).value := by
  intro rest
  cases f with
  | bitDepth =>
    refine Toml.value_writeInteger ?_
    cases s.bitDepth <;> decide
  | sampleRate => exact Toml.value_writeFloat s.sampleRate
  | variablePrefix =>
    have h := Toml.value_writeText s.variablePrefix.toList rest
    rwa [String.ofList_toList] at h
  | logFilter =>
    have h := Toml.value_writeText s.logFilter.toList rest
    rwa [String.ofList_toList] at h

theorem read_toToml :
    Toml.read s.toToml.toList = some (Field.all.map fun f => (s.line f).entry) := by
  have hkeys : ∀ l ∈ Field.all.map s.line, Bare l.key := by
    rintro l hl
    obtain ⟨f, -, rfl⟩ := List.mem_map.1 hl
    rw [line_key]
    exact bare_key f
  have hreads : ∀ l ∈ Field.all.map s.line, Reads l.text l.value := by
    rintro l hl
    obtain ⟨f, -, rfl⟩ := List.mem_map.1 hl
    exact s.reads_line f
  have hnodup : ((Field.all.map s.line).map Line.key).Nodup := by
    have hkey : Line.key ∘ s.line = Field.key := funext s.line_key
    rw [List.map_map, hkey]
    decide
  rw [toList_toToml, Toml.read_lines hkeys hreads hnodup, List.map_map]
  rfl

theorem setEntry_entry (t : Settings) (f : Field) :
    t.setEntry (s.line f).entry.1 (s.line f).entry.2 = t.set f (s.line f).value := by
  simp only [Line.entry, line_key, setEntry, Field.ofKey?_key]

theorem bitDepthOf_bits (d : BitDepth) : bitDepthOf d.bits = .ok d := by cases d <;> rfl

/-- The table of all settings gives every one of them its value. -/
theorem ofEntries_lines : ofEntries (Field.all.map fun f => (s.line f).entry) = .ok s := by
  simp only [ofEntries, Field.all, List.map_cons, List.map_nil, List.foldlM_cons, List.foldlM_nil,
    setEntry_entry]
  simp only [line, set, bitDepthOf_bits]
  rfl

theorem validate_eq_ok_iff :
    s.validate = .ok s ↔
      s.sampleRate.isFinite ∧ s.sampleRate > 0 ∧ Text.isIdentifier s.variablePrefix.toList := by
  unfold validate fault?
  split_ifs with h₁ h₂
  · simp only [Bool.not_eq_true', Bool.and_eq_false_iff, decide_eq_false_iff_not] at h₁
    simp only [false_iff]
    rintro ⟨hfinite, hpos, -⟩
    rcases h₁ with h₁ | h₁
    · rw [hfinite] at h₁
      cases h₁
    · exact h₁ hpos
  · simp only [Bool.not_eq_true'] at h₂
    simp [h₂]
  · simpa [and_assoc] using And.intro h₁ h₂

/-- Reading the document of any settings comes to validating them. -/
theorem ofToml_toToml :
    ofToml s.toToml = s.validate ∧
      (s.validate = .ok s ↔
        s.sampleRate.isFinite ∧ s.sampleRate > 0 ∧ Text.isIdentifier s.variablePrefix.toList) := by
  refine ⟨?_, s.validate_eq_ok_iff⟩
  rw [ofToml, read_toToml]
  simp only [ofEntries_lines]

end Patchbay.Settings
