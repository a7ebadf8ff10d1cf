import Patchbay.Proofs.Helper.Emission
import Patchbay.Proofs.Helper.Identifiers

/-!
Functions that the code of the helper units defines and calls. A unit that is called by others is
one that they need, with one exception: the unit for triggers calls a function of the unit for
tokens and does not need it.
-/
namespace Patchbay.Helper

/-- The parts of a line that end in front of an opening bracket. -/
def heads (line : List Char) : List (List Char) := (line.splitOn '(').dropLast

/-- The identifier directly in front of the bracket, if there is one. -/
def headName (head : List Char) : List Char := head.rtakeWhile isIdentifierChar

/-- Whether the identifier is that of a function which is being defined. -/
def isDefinition (head : List Char) : Bool :=
  "function ".toList.isSuffixOf (head.rdropWhile isIdentifierChar)

def definedIn (lines : List (List Char)) : List (List Char) :=
  ((lines.flatMap heads).filter isDefinition).map headName

def calledIn (lines : List (List Char)) : List (List Char) :=
  (((lines.flatMap heads).filter (!isDefinition ·)).map headName).filter (· ≠ [])

namespace Builtin

/-- The names of the functions that the code of a unit defines. -/
def defines (settings : Settings) (b : Builtin) : List (List Char) :=
  definedIn ((b.lines settings).map String.toList)

/-- The names of the functions that the code of a unit calls. -/
def calls (settings : Settings) (b : Builtin) : List (List Char) :=
  calledIn ((b.lines settings).map String.toList)

/-- The units that define what the code of a unit calls. -/
def callees : Builtin → List Builtin
  | bang => [tokens]
  | tokens => [tokens]
  | templates => [tokens, templates]
  | noteToFrequency => [noteToFrequency]
  | frequencyToNote | arrays | engineConfigured => []

end Builtin

/-- Each function is defined by one unit, and the units that define what is called are the
callees. -/
abbrev Linked (lines : Builtin → List (List Char)) : Prop :=
  ∀ b ∈ Builtin.all, ∀ b' ∈ Builtin.all,
    (∀ f ∈ definedIn (lines b), f ∈ definedIn (lines b') → b = b') ∧
    (b' ∈ b.callees ↔ ∃ f ∈ calledIn (lines b), f ∈ definedIn (lines b'))

section Lines

variable {line : String} {lines : List String} {cs : List Char} {css : List (List Char)}

theorem map_toList_cons (hline : line.toList = cs) (hlines : lines.map String.toList = css) :
    (line :: lines).map String.toList = cs :: css := by rw [List.map_cons, hline, hlines]

theorem linked_of_spelled {settings : Settings} (spelled : Builtin → List (List Char))
    (h : ∀ b : Builtin, (b.lines settings).map String.toList = spelled b)
    (hlinked : Linked spelled) : Linked fun b => (b.lines settings).map String.toList := by
  rwa [funext h]

theorem linked (settings : Settings) : Linked fun b => (b.lines settings).map String.toList := by
  obtain ⟨d, rate, front, filter⟩ := settings
  cases d
  -- The characters of the units are left open until the literals have been spelled out.
  all_goals
    exact linked_of_spelled (@Builtin.rec (fun _ => List (List Char)) _ _ _ _ _ _ _) (by
      intro b
      cases b
      all_goals simp only [Builtin.lines, bangLines, tokenLines, templateLines, noteLines,
        frequencyLines, engineLines, arrayLines, BitDepth.floatArray]
      -- Literals are spelled out by a lemma, since evaluating them is slow.
      all_goals repeat' with_reducible first
        | exact String.toList_ofList
        | exact toList_append_of_toList String.toList_ofList String.toList_ofList
        | exact toList_append_of_toList
            (toList_append_of_toList String.toList_ofList String.toList_ofList) String.toList_ofList
        | exact List.map_nil
        | apply map_toList_cons) (by decide +kernel)

end Lines

section Closed

variable {settings : Settings} {b b' : Builtin} {f : List Char} {requests units : List Builtin}

/-- A function is defined by one unit only. -/
theorem Builtin.definer_unique (h : f ∈ b.defines settings) (h' : f ∈ b'.defines settings) :
    b = b' :=
  (linked settings b b.mem_all b' b'.mem_all).1 f h h'

theorem Builtin.mem_callees_iff (settings : Settings) :
    b' ∈ b.callees ↔ ∃ f ∈ b.calls settings, f ∈ b'.defines settings :=
  (linked settings b b.mem_all b' b'.mem_all).2

/-- All functions of units that the code of the given units calls are defined by one of these. -/
def Closed (settings : Settings) (units : List Builtin) : Prop :=
  ∀ b ∈ units, ∀ f ∈ b.calls settings, (∃ b' : Builtin, f ∈ b'.defines settings) →
    ∃ b' ∈ units, f ∈ b'.defines settings

/-- A unit needs all other units whose functions its code calls. -/
def Builtin.Honest (settings : Settings) (b : Builtin) : Prop :=
  ∀ f ∈ b.calls settings, ∀ b' : Builtin, f ∈ b'.defines settings → b' ≠ b → b' ∈ b.needs

theorem closed_iff : Closed settings units ↔ ∀ b ∈ units, b.callees ⊆ units := by
  constructor
  · intro h b hb b' hb'
    obtain ⟨f, hcall, hdef⟩ := (Builtin.mem_callees_iff settings).1 hb'
    obtain ⟨b'', hmem, hdef'⟩ := h b hb f hcall ⟨b', hdef⟩
    rwa [Builtin.definer_unique hdef hdef']
  · rintro h b hb f hcall ⟨b', hdef⟩
    exact ⟨b', h b hb ((Builtin.mem_callees_iff settings).2 ⟨f, hcall, hdef⟩), hdef⟩

theorem Builtin.honest_iff : b.Honest settings ↔ b ≠ .bang := by
  have hcallees : b.Honest settings ↔ ∀ b' ∈ b.callees, b' ≠ b → b' ∈ b.needs := by
    constructor
    · intro h b' hb'
      obtain ⟨f, hcall, hdef⟩ := (mem_callees_iff settings).1 hb'
      exact h f hcall b' hdef
    · intro h f hcall b' hdef
      exact h b' ((mem_callees_iff settings).2 ⟨f, hcall, hdef⟩)
  rw [hcallees]
  cases b <;> decide

/-- The unit for tokens comes in by request or for the unit for templates. -/
theorem tokens_mem_iff (h : Emits Builtin.needs [] requests units) :
    .tokens ∈ units ↔ .tokens ∈ requests ∨ .templates ∈ requests := by
  have htemplates : .templates ∈ units ↔ .templates ∈ requests :=
    h.mem_iff_of_no_edge fun b => by cases b <;> decide
  constructor
  · intro hmem
    rcases h.origin hmem with hnil | hrequest | ⟨b, hb, hneed⟩
    · cases hnil
    · exact .inl hrequest
    · cases b
      case templates => exact .inr (htemplates.1 hb)
      all_goals exact absurd hneed (by decide)
  · rintro (hrequest | hrequest)
    · exact h.mem hrequest
    · exact h.closed_of_nil .templates (h.mem hrequest) List.mem_cons_self

/-- Resolution of builtin units always succeeds. What is returned defines all functions of units
that its code calls, unless the unit for triggers is requested without one that brings in the unit
for tokens; for of all units it is the only one that calls into another and does not need it. -/
theorem resolve_closed_iff (settings : Settings) (requests : List Builtin) :
    (∃ units, library.resolve requests = .ok units ∧
      (Closed settings units ↔
        (.bang ∈ requests → .tokens ∈ requests ∨ .templates ∈ requests))) ∧
    ∀ b : Builtin, b.Honest settings ↔ b ≠ .bang := by
  refine ⟨?_, fun b => Builtin.honest_iff⟩
  obtain ⟨units, hunits⟩ := exists_resolve_library requests
  have hemits := emits_of_resolve hunits
  have hrequested : .bang ∈ units ↔ .bang ∈ requests :=
    hemits.mem_iff_of_no_edge fun b => by cases b <;> decide
  refine ⟨units, hunits, ?_⟩
  rw [closed_iff, ← tokens_mem_iff hemits, ← hrequested]
  constructor
  · intro h hbang
    exact h .bang hbang List.mem_cons_self
  · intro h b hb b' hb'
    cases b with
    | bang =>
      obtain rfl := List.mem_singleton.1 hb'
      exact h hb
    | templates =>
      rcases List.mem_cons.1 hb' with rfl | hb'
      · exact hemits.closed_of_nil .templates hb List.mem_cons_self
      · rwa [List.mem_singleton.1 hb']
    | tokens | noteToFrequency => rwa [List.mem_singleton.1 hb']
    | frequencyToNote | arrays | engineConfigured => cases hb'

/-- By itself the unit for triggers lacks a function that it calls. -/
theorem resolve_not_closed :
    library.resolve [.bang] = .ok [.bang] ∧ ¬ Closed {} [.bang] := by
  constructor
  · obtain ⟨units, hunits⟩ := exists_resolve_library [.bang]
    have hbang : Emits Builtin.needs [] [.bang] [.bang] := .new (by decide) (.done _) (.done _)
    rw [hunits, (emits_of_resolve hunits).functional hbang]
  · rw [closed_iff]
    decide

end Closed

end Patchbay.Helper
