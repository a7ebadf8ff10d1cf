import Mathlib
import Patchbay.Node.Names

/-!
Names of nodes, taken apart. A name ends with a part that has no underscore: a word, or digits with
the tag of a jack in front. So the end tells what the name is for and how much of it is the id,
whatever underscores and digits the id has.
-/
namespace Patchbay

/-- The words for state variables and for functions that nodes declare. -/
inductive Word where
  | templates
  | array
  | arrayName
  | arrayChangesSubscription
  | index
  | setArrayName
  | setIndex
  deriving DecidableEq, Repr

namespace Word

def all : List Word :=
  [templates, array, arrayName, arrayChangesSubscription, index, setArrayName, setIndex]

theorem mem_all (w : Word) : w ∈ all := by cases w <;> decide

def text : Word → String
  | templates => "templates"
  | array => "array"
  | arrayName => "arrayName"
  | arrayChangesSubscription => "arrayChangesSubscription"
  | index => "index"
  | setArrayName => "setArrayName"
  | setIndex => "setIndex"

theorem text_injective : Function.Injective text := by
  intro w w' h
  cases w <;> cases w' <;> first | rfl | exact absurd h (by decide)

theorem underscore_notMem (w : Word) : '_' ∉ w.text.toList := by cases w <;> decide

theorem not_digits (w : Word) : w.text.toList.all Char.isDigit = false := by cases w <;> decide

end Word

/-- The four names that belong to a jack: two for its samples, two for its messages. -/
inductive JackName where
  | input
  | output
  | sender
  | receiver
  deriving DecidableEq, Repr

namespace JackName

def tag : JackName → String
  | input => "INS"
  | output => "OUTS"
  | sender => "SNDS"
  | receiver => "RCVS"

theorem tag_injective : Function.Injective tag := by
  intro j j' h
  cases j <;> cases j' <;> first | rfl | exact absurd h (by decide)

theorem underscore_notMem (j : JackName) : '_' ∉ j.tag.toList := by cases j <;> decide

end JackName

/-- What a node has a name for. -/
inductive Local where
  | word (w : Word)
  | jack (j : JackName) (number : ℕ)
  deriving DecidableEq, Repr

namespace Local

def text : Local → String
  | word w => w.text
  | jack j number => j.tag ++ "_" ++ toString number

theorem toList_text_jack (j : JackName) (number : ℕ) :
    (jack j number).text.toList = j.tag.toList ++ '_' :: Nat.toDigits 10 number := by
  have h : "_".toList = ['_'] := rfl
  simp only [text, String.toList_append, Nat.toString_eq_repr, Nat.toList_repr, h,
    List.append_assoc, List.singleton_append]

theorem all_isNameChar_toDigits (number : ℕ) :
    (Nat.toDigits 10 number).all fun d => Text.isWordChar d || d = '_' := by
  refine List.all_eq_true.2 fun c hc => ?_
  have hdigit : c.isDigit := Nat.isDigit_of_mem_toDigits (by decide) (by decide) hc
  rw [Text.isWordChar, Char.isAlphanum, hdigit, Bool.or_true, Bool.true_or]

/-- The characters of a name may stand in an identifier behind its first. -/
theorem all_isNameChar (l : Local) : l.text.toList.all fun d => Text.isWordChar d || d = '_' := by
  cases l with
  | word w => cases w <;> decide
  | jack j number =>
    have htag : j.tag.toList.all fun d => Text.isWordChar d || d = '_' := by cases j <;> decide
    rw [toList_text_jack, List.all_append, List.all_cons, htag, all_isNameChar_toDigits]
    rfl

end Local

section Splitting

variable {α : Type} {a : α} {xs ys us vs : List α}

/-- A list is cut in one way at the last place of an element. -/
theorem append_cons_inj (hu : a ∉ us) (hv : a ∉ vs) (h : xs ++ a :: us = ys ++ a :: vs) :
    xs = ys ∧ us = vs := by
  rcases List.append_eq_append_iff.1 h with ⟨cs, rfl, hcs⟩ | ⟨cs, rfl, hcs⟩
  · rcases cs with _ | ⟨c, cs⟩
    · exact ⟨(List.append_nil _).symm, (List.cons.inj hcs).2⟩
    · exact absurd (by simp [(List.cons.inj hcs).2]) hu
  · rcases cs with _ | ⟨c, cs⟩
    · exact ⟨List.append_nil _, (List.cons.inj hcs).2.symm⟩
    · exact absurd (by simp [(List.cons.inj hcs).2]) hv

end Splitting

theorem toDigits_injective : Function.Injective (Nat.toDigits 10) := by
  intro n n' h
  rw [← Nat.ofDigitChars_ten_toDigits (n := n), h, Nat.ofDigitChars_ten_toDigits]

theorem word_ne_digits (w : Word) (number : ℕ) : w.text.toList ≠ Nat.toDigits 10 number := by
  intro h
  have hall : (Nat.toDigits 10 number).all Char.isDigit :=
    List.all_eq_true.2 fun _ => Nat.isDigit_of_mem_toDigits (by decide) (by decide)
  rw [← h, w.not_digits] at hall
  cases hall

/-- What stands in front of the last part of a name is the same only for the same name, so neither
underscores nor tags nor digits in an id lead to a second reading. -/
theorem Local.append_text_inj {xs ys : List Char} {l l' : Local}
    (h : xs ++ '_' :: l.text.toList = ys ++ '_' :: l'.text.toList) : xs = ys ∧ l = l' := by
  cases l with
  | word w =>
    cases l' with
    | word w' =>
      obtain ⟨hfront, htext⟩ := append_cons_inj w.underscore_notMem w'.underscore_notMem h
      exact ⟨hfront, congrArg word (Word.text_injective (String.toList_inj.1 htext))⟩
    | jack j number =>
      rw [toList_text_jack, ← List.cons_append, ← List.append_assoc] at h
      have hword := append_cons_inj w.underscore_notMem Nat.underscore_not_in_toDigits h
      exact absurd hword.2 (word_ne_digits w number)
  | jack j number =>
    rw [toList_text_jack, ← List.cons_append, ← List.append_assoc] at h
    cases l' with
    | word w =>
      have hword := append_cons_inj Nat.underscore_not_in_toDigits w.underscore_notMem h
      exact absurd hword.2.symm (word_ne_digits w number)
    | jack j' number' =>
      rw [toList_text_jack, ← List.cons_append, ← List.append_assoc] at h
      obtain ⟨hfront, hdigits⟩ :=
        append_cons_inj Nat.underscore_not_in_toDigits Nat.underscore_not_in_toDigits h
      obtain ⟨hfront, htag⟩ := append_cons_inj j.underscore_notMem j'.underscore_notMem hfront
      exact ⟨hfront, by rw [JackName.tag_injective (String.toList_inj.1 htag),
        toDigits_injective hdigits]⟩

namespace Names

variable {settings : Settings} {id id' : String} {declared declared' : List String} {l l' : Local}

theorem toList_own (names : Names) (name : String) :
    (names.own name).toList = names.space.toList ++ '_' :: name.toList := by
  have h : "_".toList = ['_'] := rfl
  simp only [own, String.toList_append, h, List.append_assoc, List.singleton_append]

/-- A name tells what it is for and what is left of the id in it. -/
theorem own_inj (h : (ofNode settings id declared).own l.text =
    (ofNode settings id' declared').own l'.text) : sanitized id = sanitized id' ∧ l = l' := by
  have h' := congrArg String.toList h
  rw [toList_own, toList_own] at h'
  obtain ⟨hspace, hl⟩ := Local.append_text_inj h'
  refine ⟨?_, hl⟩
  simp only [ofNode, String.toList_append] at hspace
  exact String.toList_inj.1 (List.append_cancel_left hspace)

theorem underscore_mem_own (names : Names) (name : String) : '_' ∈ (names.own name).toList := by
  rw [toList_own]
  simp

theorem all_isNameChar_sanitized (id : String) :
    (sanitized id).toList.all fun d => Text.isWordChar d || d = '_' := by
  rw [sanitized, String.toList_ofList, List.all_map, List.all_eq_true]
  intro c _
  simp only [Function.comp_apply]
  split
  · next hc => rw [hc, Bool.true_or]
  · rfl

/-- With a prefix that is an identifier all names are identifiers. -/
theorem isIdentifier_own (h : Text.isIdentifier settings.variablePrefix.toList) (l : Local) :
    Text.isIdentifier ((ofNode settings id declared).own l.text).toList := by
  have hspace : (ofNode settings id declared).space.toList =
      settings.variablePrefix.toList ++ '_' :: (sanitized id).toList := by
    have hunderscore : "_".toList = ['_'] := rfl
    simp only [ofNode, String.toList_append, hunderscore, List.append_assoc,
      List.singleton_append]
  rw [toList_own, hspace]
  obtain ⟨c, cs, hproper⟩ : ∃ c cs, settings.variablePrefix.toList = c :: cs := by
    refine List.exists_cons_of_ne_nil fun hnil => ?_
    rw [hnil] at h
    cases h
  rw [hproper, Text.isIdentifier, Bool.and_eq_true] at h
  rw [hproper]
  simp only [List.cons_append, Text.isIdentifier, h.1, Bool.true_and, List.all_append,
    List.all_cons, h.2, all_isNameChar_sanitized,
    l.all_isNameChar]
  rfl

end Names

end Patchbay
