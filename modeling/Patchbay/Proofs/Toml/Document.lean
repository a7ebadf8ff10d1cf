import Mathlib
import Patchbay.Proofs.Toml.Number
import Patchbay.Proofs.Toml.Text
import Patchbay.Toml.Document
import Patchbay.Toml.Writer

/-!
Documents that consist of lines, each with a key and a value. Such a document is read as the table
with these keys and values in their order.
-/
namespace Patchbay.Toml

section Value

variable {cs rest left : List Char} {x : Value}

theorem value_writeText (cs rest : List Char) :
    value (writeText cs ++ '\n' :: rest) = some (.text (String.ofList cs), '\n' :: rest) := by
  have hread := text?_writeText cs rest
  obtain ⟨c, r, hc, h⟩ : ∃ c r, (c = '"' ∨ c = '\'') ∧ writeText cs ++ '\n' :: rest = c :: r := by
    unfold writeText
    split
    · exact ⟨'"', _, .inl rfl, rfl⟩
    · exact ⟨'\'', _, .inr rfl, rfl⟩
    · exact ⟨'"', _, .inl rfl, rfl⟩
    · exact ⟨'\'', _, .inr rfl, rfl⟩
  have hfirst : c ≠ '[' ∧ c ≠ '\x7b' ∧ c ≠ 't' ∧ c ≠ 'f' := by rcases hc with rfl | rfl <;> decide
  rw [h] at hread ⊢
  rw [value_cons hfirst, if_pos hc, hread]
  rfl

/-- No value begins with space. -/
theorem value_space {c : Char} (hc : isSpace c) (cs : List Char) : value (c :: cs) = none := by
  have hc' : c = ' ' ∨ c = '\t' := by simpa [isSpace] using hc
  have hnumber : number? (c :: cs) = none := by
    rcases hc' with rfl | rfl <;>
      simp [number?, sign, special?, decimal, wholeRun, digitRun, isGrouped]
  have hmoment : beginsMoment (c :: cs) = false :=
    beginsMoment_cons (by rcases hc' with rfl | rfl <;> rfl)
  rw [value_cons (by rcases hc' with rfl | rfl <;> decide),
    if_neg (by rcases hc' with rfl | rfl <;> decide), hmoment, if_neg Bool.false_ne_true, hnumber]

theorem skipSpaces_of_value (h : value cs = some (x, left)) : skipSpaces cs = cs := by
  rcases cs with _ | ⟨c, cs⟩
  · rfl
  · refine List.dropWhile_cons_of_neg fun hc => ?_
    rw [value_space hc] at h
    cases h

end Value

/-- A key that needs no quotes. -/
structure Bare (key : String) : Prop where
  ne_nil : key.toList ≠ []
  chars : ∀ c ∈ key.toList, isBareChar c

/-- At the end of a line the text is read as the value. -/
def Reads (v : List Char) (x : Value) : Prop :=
  ∀ rest, value (v ++ '\n' :: rest) = some (x, '\n' :: rest)

section Line

variable {key : String} {v rest : List Char} {x : Value}

theorem Bare.exists_cons (hkey : Bare key) :
    ∃ c cs, key.toList = c :: cs ∧ isBareChar c := by
  obtain ⟨c, cs, h⟩ := List.exists_cons_of_ne_nil hkey.ne_nil
  exact ⟨c, cs, h, hkey.chars c (by simp [h])⟩

theorem ne_of_isBareChar {c d : Char} (hc : isBareChar c) (hd : isBareChar d = false) : c ≠ d := by
  rintro rfl
  rw [hc] at hd
  cases hd

theorem skipSpaces_cons {c : Char} (hc : isSpace c = false) (cs : List Char) :
    skipSpaces (c :: cs) = c :: cs :=
  List.dropWhile_cons_of_neg (by simp [hc])

theorem Bare.skipSpaces_append (hkey : Bare key) (cs : List Char) :
    skipSpaces (key.toList ++ cs) = key.toList ++ cs := by
  obtain ⟨c, r, h, hc⟩ := hkey.exists_cons
  rw [h]
  refine skipSpaces_cons ?_ _
  have h₁ : c ≠ ' ' := ne_of_isBareChar hc rfl
  have h₂ : c ≠ '\t' := ne_of_isBareChar hc rfl
  simp [isSpace, h₁, h₂]

theorem Bare.simpleKey_append (hkey : Bare key) (cs : List Char) :
    simpleKey (key.toList ++ ' ' :: cs) = some (key, ' ' :: cs) := by
  have htake : (key.toList ++ ' ' :: cs).takeWhile isBareChar = key.toList := by
    rw [List.takeWhile_append_of_pos hkey.chars, List.takeWhile_cons_of_neg (by decide),
      List.append_nil]
  obtain ⟨c, r, h, hc⟩ := hkey.exists_cons
  unfold simpleKey
  split
  · next heq =>
    rw [h] at heq
    exact absurd (List.cons.inj heq).1 (ne_of_isBareChar hc rfl)
  · next heq =>
    rw [h] at heq
    exact absurd (List.cons.inj heq).1 (ne_of_isBareChar hc rfl)
  · simp only [htake, if_neg hkey.ne_nil, List.drop_left, String.ofList_toList]

theorem assignment_writeLine (hkey : Bare key) (hread : Reads v x) :
    assignment value (writeLine key v ++ rest) = some (([key], x), '\n' :: rest) := by
  have hline : writeLine key v ++ rest =
      key.toList ++ ' ' :: '=' :: ' ' :: (v ++ '\n' :: rest) := by
    simp [writeLine]
  have hpath : Toml.key (writeLine key v ++ rest) =
      some ([key], '=' :: ' ' :: (v ++ '\n' :: rest)) := by
    rw [hline, Toml.key, maxDepth, keyParts, hkey.skipSpaces_append, hkey.simpleKey_append]
    rfl
  have hvalue : value (skipSpaces (' ' :: (v ++ '\n' :: rest))) = some (x, '\n' :: rest) := by
    have hspace : skipSpaces (' ' :: (v ++ '\n' :: rest)) = skipSpaces (v ++ '\n' :: rest) := rfl
    rw [hspace, skipSpaces_of_value (hread rest), hread]
  rw [assignment, hpath]
  simp only [Option.bind_eq_bind, Option.bind_some, expect, if_true, hvalue]
  rfl

/-- A line is read as an assignment in front of those in the lines behind it. -/
theorem layout_writeLine (hkey : Bare key) (hread : Reads v x) (fuel : ℕ) :
    layout (fuel + 1) (writeLine key v ++ rest) =
      (layout fuel rest).map (Layout.assign [key] x) := by
  have hassignment : assignment value (writeLine key v ++ rest) = some (([key], x), '\n' :: rest) :=
    assignment_writeLine hkey hread
  have hskip : skipSpaces (writeLine key v ++ rest) = writeLine key v ++ rest := by
    simp only [writeLine, List.append_assoc, hkey.skipSpaces_append]
  obtain ⟨c, r, h, hc⟩ := hkey.exists_cons
  obtain ⟨cs, hcs⟩ : ∃ cs, writeLine key v ++ rest = c :: cs :=
    ⟨_, by simp only [writeLine, h, List.cons_append]; rfl⟩
  rw [hcs] at hassignment hskip ⊢
  have hmark : ¬(c = '#' ∨ c = '\n' ∨ c = '\r') := by
    rintro (rfl | rfl | rfl) <;> cases hc
  rw [layout, hskip]
  split
  · next heq => cases heq
  · next heq => exact absurd (List.cons.inj heq).1 (ne_of_isBareChar hc rfl)
  · next heq => exact absurd (List.cons.inj heq).1 (ne_of_isBareChar hc rfl)
  · next heq =>
    obtain ⟨rfl, rfl⟩ := List.cons.inj heq
    rw [if_neg hmark, hassignment]
    have hend : lineEnd? ('\n' :: rest) = some rest := rfl
    simp only [Option.bind_eq_bind, Option.bind_some, hend]
    cases layout fuel rest <;> rfl

end Line

/-- A line with its key, its text and the value that the text is read as. -/
structure Line where
  key : String
  text : List Char
  value : Value

namespace Line

def write (l : Line) : List Char := writeLine l.key l.text

def entry (l : Line) : String × Item := (l.key, .value l.value)

end Line

section Lines

variable {ls : List Line} {fuel : ℕ}

theorem layout_lines (hkeys : ∀ l ∈ ls, Bare l.key) (hreads : ∀ l ∈ ls, Reads l.text l.value)
    (hfuel : ls.length < fuel) :
    layout fuel (ls.flatMap Line.write) = some ⟨ls.map fun l => ([l.key], l.value), []⟩ := by
  induction ls generalizing fuel with
  | nil =>
    obtain ⟨fuel, rfl⟩ := Nat.exists_eq_succ_of_ne_zero (Nat.ne_of_gt hfuel)
    rfl
  | cons l ls ih =>
    obtain ⟨fuel, rfl⟩ := Nat.exists_eq_succ_of_ne_zero (Nat.ne_zero_of_lt hfuel)
    rw [List.flatMap_cons, Line.write, layout_writeLine (hkeys l (by simp)) (hreads l (by simp)),
      ih (fun l hl => hkeys l (by simp [hl])) (fun l hl => hreads l (by simp [hl]))
        (by simpa using hfuel)]
    rfl

theorem put_of_lookup_eq_none {α : Type} {name : String} {entries : List (String × α)} (a : α)
    (h : entries.lookup name = none) : Keyed.put name a entries = entries ++ [(name, a)] := by
  induction entries with
  | nil => rfl
  | cons e entries ih =>
    obtain ⟨n, old⟩ := e
    rw [List.lookup_cons] at h
    split at h
    · cases h
    · next hn =>
      have hn' : n ≠ name := fun heq => by simp [heq] at hn
      rw [Keyed.put, if_neg hn', ih h, List.cons_append]

/-- A key that is new comes behind those that are there. -/
theorem assign_of_lookup_eq_none {key : String} {entries : Entries} (x : Value)
    (h : entries.lookup key = none) :
    assign [key] x entries = some (entries ++ [(key, .value x)]) := by
  have hassign : assign [key] x entries =
      if false = true ∨ (entries.lookup key).isSome then none
      else some (Keyed.put key (.value x) entries) := rfl
  rw [hassign, h, if_neg (by simp), put_of_lookup_eq_none _ h]

theorem assignAll_cons (path : List String) (x : Value) (others : List (List String × Value))
    (entries : Entries) :
    assignAll ((path, x) :: others) entries = (assign path x entries).bind (assignAll others) := rfl

theorem assignAll_lines (hnodup : (ls.map Line.key).Nodup) (entries : Entries)
    (hnew : ∀ l ∈ ls, entries.lookup l.key = none) :
    assignAll (ls.map fun l => ([l.key], l.value)) entries =
      some (entries ++ ls.map Line.entry) := by
  induction ls generalizing entries with
  | nil => exact congrArg some (List.append_nil _).symm
  | cons l ls ih =>
    rw [List.map_cons, List.nodup_cons] at hnodup
    have hrest := ih hnodup.2 (entries ++ [l.entry]) (by
      intro l' hl'
      have hne : l'.key ≠ l.key := fun h => hnodup.1 (List.mem_map.2 ⟨l', hl', h⟩)
      rw [List.lookup_append, hnew l' (by simp [hl']), Line.entry, List.lookup_cons,
        beq_false_of_ne hne]
      rfl)
    rw [List.map_cons, assignAll_cons, assign_of_lookup_eq_none _ (hnew l (by simp)),
      Option.bind_some, ← Line.entry, hrest, List.map_cons, List.append_assoc,
      List.singleton_append]

theorem length_le_flatMap_write (ls : List Line) : ls.length ≤ (ls.flatMap Line.write).length := by
  induction ls with
  | nil => exact Nat.le_refl _
  | cons l ls ih =>
    simp only [List.flatMap_cons, List.length_append, List.length_cons, Line.write, writeLine]
    omega

/-- A document of lines with different keys is the table of these keys and their values. -/
theorem read_lines (hkeys : ∀ l ∈ ls, Bare l.key) (hreads : ∀ l ∈ ls, Reads l.text l.value)
    (hnodup : (ls.map Line.key).Nodup) :
    read (ls.flatMap Line.write) = some (ls.map Line.entry) := by
  have hmark : skipMark (ls.flatMap Line.write) = ls.flatMap Line.write := by
    rcases ls with _ | ⟨l, ls⟩
    · rfl
    · obtain ⟨c, r, h, hc⟩ := (hkeys l (by simp)).exists_cons
      rw [List.flatMap_cons, Line.write, writeLine, h]
      unfold skipMark
      split
      · next heq => exact absurd (List.cons.inj heq).1 (ne_of_isBareChar hc rfl)
      · rfl
  have hlayout := layout_lines hkeys hreads (Nat.lt_succ_of_le (length_le_flatMap_write ls))
  have hassign := assignAll_lines hnodup [] fun _ _ => rfl
  rw [read, hmark]
  simp only [hlayout, hassign, Option.bind_eq_bind, Option.bind_some, List.foldlM_nil,
    List.nil_append]
  rfl

end Lines

end Patchbay.Toml
