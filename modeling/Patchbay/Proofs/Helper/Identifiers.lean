import Mathlib
import Patchbay.Helper.Library
import Patchbay.Proofs.Node.Names

/-!
The identifiers in the code of the helper units. None of them ends as the names of nodes do, so no
name of a node takes away the meaning of one.
-/
namespace Patchbay.Helper

/-- The characters of an identifier of the emitted language, as far as they are ASCII. -/
def isIdentifierChar (c : Char) : Bool := Text.isWordChar c || c = '_' || c = '$'

/-- The longest runs of such characters. Keywords, numbers and the words of string literals are
among them. -/
def identifiersOf (line : List Char) : List (List Char) :=
  (line.splitOnP (!isIdentifierChar ·)).filter (· ≠ [])

def identifiersOfAll (lines : List String) : List (List Char) :=
  lines.flatMap fun line => identifiersOf line.toList

/-- The identifiers in the code of a unit, whether it declares them or not. -/
def Builtin.identifiers (settings : Settings) (b : Builtin) : List (List Char) :=
  identifiersOfAll (b.lines settings)

/-- The part of an identifier behind its last underscore. -/
def lastPart (identifier : List Char) : List Char := identifier.rtakeWhile (· ≠ '_')

/-- Whether an identifier has an underscore and ends in a word that nodes use or in digits. -/
def endsLikeLocal (identifier : List Char) : Bool :=
  '_' ∈ identifier &&
    (Word.all.any (·.text.toList = lastPart identifier) || (lastPart identifier).all Char.isDigit)

section Names

variable {xs us : List Char}

theorem lastPart_append (h : '_' ∉ us) : lastPart (xs ++ '_' :: us) = us := by
  have hus : ∀ c ∈ us.reverse, decide (c ≠ '_') = true := by
    intro c hc
    refine decide_eq_true fun he => h ?_
    rwa [← he, ← List.mem_reverse]
  rw [lastPart, List.rtakeWhile, List.reverse_append, List.reverse_cons, List.append_assoc,
    List.singleton_append, List.takeWhile_append_of_pos hus, List.takeWhile_cons_of_neg (by simp),
    List.append_nil, List.reverse_reverse]

theorem endsLikeLocal_append (xs : List Char) (l : Local) :
    endsLikeLocal (xs ++ '_' :: l.text.toList) := by
  cases l with
  | word w =>
    have hword : Word.all.any (·.text.toList = w.text.toList) :=
      List.any_eq_true.2 ⟨w, w.mem_all, by simp⟩
    simp only [endsLikeLocal, Local.text, lastPart_append w.underscore_notMem, hword]
    simp
  | jack j number =>
    have hdigits : (Nat.toDigits 10 number).all Char.isDigit :=
      List.all_eq_true.2 fun _ => Nat.isDigit_of_mem_toDigits (by decide) (by decide)
    rw [Local.toList_text_jack, ← List.cons_append, ← List.append_assoc]
    simp only [endsLikeLocal, lastPart_append Nat.underscore_not_in_toDigits, hdigits]
    simp

end Names

section Lines

variable {p : List Char → Bool} {line : String} {cs ds : List Char} {lines : List String}

/-- The characters of a text that is put together from literals. -/
theorem toList_append_of_toList {a b : String} (ha : a.toList = cs) (hb : b.toList = ds) :
    (a ++ b).toList = cs ++ ds := by rw [String.toList_append, ha, hb]

theorem all_identifiersOfAll_nil : (identifiersOfAll []).all p := rfl

theorem all_identifiersOfAll_cons (hline : line.toList = cs) (h : (identifiersOf cs).all p)
    (hlines : (identifiersOfAll lines).all p) : (identifiersOfAll (line :: lines)).all p := by
  rw [identifiersOfAll, List.flatMap_cons, List.all_append, hline, h]
  exact hlines

/-- No identifier in the code of a unit ends like the name of a node. -/
theorem not_endsLikeLocal (settings : Settings) (b : Builtin) :
    (b.identifiers settings).all (!endsLikeLocal ·) := by
  have harrays (d : BitDepth) :
      (identifiersOfAll (arrayLines d.floatArray)).all (!endsLikeLocal ·) := by
    cases d
    all_goals rw [BitDepth.floatArray, arrayLines]
    -- Literals are spelled out by a lemma, since evaluating them is slow.
    all_goals repeat
      with_reducible refine all_identifiersOfAll_cons (by
        first
        | exact String.toList_ofList
        | exact toList_append_of_toList
            (toList_append_of_toList String.toList_ofList String.toList_ofList)
            String.toList_ofList) ?_ ?_
      · decide +kernel
    all_goals exact all_identifiersOfAll_nil
  rw [Builtin.identifiers]
  cases b
  case arrays => exact harrays settings.bitDepth
  all_goals simp only [Builtin.lines, bangLines, tokenLines, templateLines, noteLines,
    frequencyLines, engineLines]
  all_goals repeat
    with_reducible refine all_identifiersOfAll_cons (by
      first
      | exact String.toList_ofList
      | exact toList_append_of_toList String.toList_ofList String.toList_ofList) ?_ ?_
    · decide +kernel
  all_goals exact all_identifiersOfAll_nil

end Lines

/-- No name of a node is an identifier in the code of a helper unit. -/
theorem own_notMem_identifiers (names : Names) (l : Local) (settings : Settings) (b : Builtin) :
    (names.own l.text).toList ∉ b.identifiers settings := by
  intro hmem
  have happart := List.all_eq_true.1 (not_endsLikeLocal settings b) _ hmem
  rw [Names.toList_own, endsLikeLocal_append] at happart
  cases happart

end Patchbay.Helper
