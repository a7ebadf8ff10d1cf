import Mathlib
import Patchbay.Proofs.Except
import Patchbay.Template.Segment

/-!
The parts of a token: dollar signs behind a backslash, references, and other characters. Scanning
takes a token apart in just one way, and gives a mark for each part or fails at a reference.
-/
namespace Patchbay.Segment

/-- A part of a token. -/
inductive Part where
  /-- A dollar sign with the backslash in front of it. -/
  | escape
  /-- A dollar sign with all digits behind it. -/
  | reference (digits : List Char)
  | char (c : Char)

namespace Part

/-- The part as it stands in the token. -/
def source : Part → List Char
  | escape => ['\\', '$']
  | reference ds => '$' :: ds
  | char c => [c]

def mark : Part → Except PlaceholderFault Mark
  | escape => .ok (.char '$')
  | reference ds => (placeholderIndex ds).map .placeholder
  | char c => .ok (.char c)

end Part

/-- Takes a token apart, whether its references are proper or not. -/
def parts (token : List Char) : List Part :=
  match token with
  | [] => []
  | '\\' :: '$' :: rest => .escape :: parts rest
  | '$' :: rest =>
    .reference (rest.takeWhile Char.isDigit) :: parts (rest.dropWhile Char.isDigit)
  | c :: rest => .char c :: parts rest
termination_by token.length
decreasing_by
  · simp only [List.length_cons]
    omega
  · have := (List.dropWhile_suffix Char.isDigit (l := rest)).length_le
    simp only [List.length_cons]
    omega
  · simp only [List.length_cons]
    omega

variable {c : Char} {ds rest token after : List Char}

/-- What holds of a token goes on to hold with one more part in front. -/
theorem token_induction {P : List Char → Prop} (nil : P [])
    (escape : ∀ rest, P rest → P ('\\' :: '$' :: rest))
    (reference : ∀ ds rest, (∀ d ∈ ds, d.isDigit) → (∀ c ∈ rest.head?, ¬c.isDigit) → P rest →
      P ('$' :: (ds ++ rest)))
    (char : ∀ c rest, c ≠ '$' → (c = '\\' → rest.head? ≠ some '$') → P rest → P (c :: rest))
    (token : List Char) : P token := by
  induction token using parts.induct with
  | case1 => exact nil
  | case2 rest ih => exact escape rest ih
  | case3 rest ih =>
    rw [← List.takeWhile_append_dropWhile (p := Char.isDigit) (l := rest)]
    refine reference _ _ (fun d hd => List.mem_takeWhile_imp hd) (fun c hc => ?_) ih
    have hhead := List.head?_dropWhile_not Char.isDigit rest
    rw [Option.mem_def.1 hc] at hhead
    simpa using hhead
  | case4 c rest hescape hdollar ih =>
    refine char c rest hdollar (fun hc hrest => ?_) ih
    obtain ⟨tail, rfl⟩ := List.head?_eq_some_iff.1 hrest
    exact hescape tail hc rfl

section Equations

theorem takeWhile_run (hds : ∀ d ∈ ds, d.isDigit) (hrest : ∀ c ∈ rest.head?, ¬c.isDigit) :
    (ds ++ rest).takeWhile Char.isDigit = ds ∧ (ds ++ rest).dropWhile Char.isDigit = rest := by
  rw [List.takeWhile_append_of_pos hds, List.dropWhile_append_of_pos hds]
  cases rest with
  | nil => simp
  | cons c rest =>
    have hc : ¬c.isDigit := hrest c rfl
    simp [hc]

@[simp] theorem parts_nil : parts [] = [] := by rw [parts]

@[simp] theorem parts_escape : parts ('\\' :: '$' :: rest) = .escape :: parts rest := by rw [parts]

theorem parts_reference (hds : ∀ d ∈ ds, d.isDigit) (hrest : ∀ c ∈ rest.head?, ¬c.isDigit) :
    parts ('$' :: (ds ++ rest)) = .reference ds :: parts rest := by
  obtain ⟨htake, hdrop⟩ := takeWhile_run hds hrest
  rw [parts, htake, hdrop]

theorem parts_char (hc : c ≠ '$') (hrest : c = '\\' → rest.head? ≠ some '$') :
    parts (c :: rest) = .char c :: parts rest := by
  rw [parts]
  · rintro tail rfl rfl
    exact hrest rfl rfl
  · exact hc

theorem marks_reference (hds : ∀ d ∈ ds, d.isDigit) (hrest : ∀ c ∈ rest.head?, ¬c.isDigit) :
    marks ('$' :: (ds ++ rest)) = do
      let index ← placeholderIndex ds
      let ms ← marks rest
      return .placeholder index :: ms := by
  obtain ⟨htake, hdrop⟩ := takeWhile_run hds hrest
  rw [marks, htake, hdrop]

theorem marks_char (hc : c ≠ '$') (hrest : c = '\\' → rest.head? ≠ some '$') :
    marks (c :: rest) = do
      let ms ← marks rest
      return .char c :: ms := by
  rw [marks]
  · rintro tail rfl rfl
    exact hrest rfl rfl
  · exact hc

/-- Scanning gives a mark for each part. -/
theorem marks_eq_mapM (token : List Char) : marks token = (parts token).mapM Part.mark := by
  induction token using token_induction with
  | nil => rw [marks, parts_nil]; rfl
  | escape rest ih =>
    rw [marks, parts_escape, List.mapM_cons, ih]
    rfl
  | reference ds rest hds hrest ih =>
    rw [marks_reference hds hrest, parts_reference hds hrest, List.mapM_cons, ih, Part.mark]
    cases placeholderIndex ds <;> rfl
  | char c rest hc hrest ih =>
    rw [marks_char hc hrest, parts_char hc hrest, List.mapM_cons, ih]
    rfl

/-- The parts make up the token. -/
theorem flatMap_source_parts (token : List Char) : (parts token).flatMap Part.source = token := by
  induction token using token_induction with
  | nil => simp
  | escape rest ih => simp [Part.source, ih]
  | reference ds rest hds hrest ih => simp [parts_reference hds hrest, Part.source, ih]
  | char c rest hc hrest ih => simp [parts_char hc hrest, Part.source, ih]

end Equations

section Refers

/-- A dollar sign stands in the token, with no backslash right in front of it, and what follows. -/
def Refers (token after : List Char) : Prop :=
  ∃ before, token = before ++ '$' :: after ∧ before.getLast? ≠ some '\\'

theorem Refers.length_lt (h : Refers token after) : after.length < token.length := by
  obtain ⟨before, rfl, -⟩ := h
  simp only [List.length_append, List.length_cons]
  omega

/-- A backslash in front changes nothing but for a dollar sign that comes first. -/
theorem refers_cons_iff : Refers (c :: rest) after ↔
    c = '$' ∧ after = rest ∨ Refers rest after ∧ (c = '\\' → rest ≠ '$' :: after) := by
  constructor
  · rintro ⟨_ | ⟨b, before⟩, h, hlast⟩
    · obtain ⟨rfl, rfl⟩ := List.cons.inj h
      exact .inl ⟨rfl, rfl⟩
    · obtain ⟨rfl, rfl⟩ := List.cons.inj h
      cases before with
      | nil => exact .inr ⟨⟨[], rfl, by simp⟩, fun hc => absurd (congrArg some hc) hlast⟩
      | cons a before =>
        refine .inr ⟨⟨a :: before, rfl, by simpa using hlast⟩, fun _ hfirst => ?_⟩
        have hlength := congrArg List.length hfirst
        simp only [List.append_eq, List.length_append, List.length_cons] at hlength
        omega
  · rintro (⟨rfl, rfl⟩ | ⟨⟨before, rfl, hlast⟩, hc⟩)
    · exact ⟨[], rfl, by simp⟩
    · refine ⟨c :: before, rfl, ?_⟩
      cases before with
      | nil => simpa using hc
      | cons b before => simpa using hlast

theorem refers_escape_iff : Refers ('\\' :: '$' :: rest) after ↔ Refers rest after := by
  have hne (h : Refers rest after) : rest ≠ after := fun he => by
    have := h.length_lt
    simp [he] at this
  simp only [refers_cons_iff]
  grind

theorem refers_char_iff (hc : c ≠ '$') (hrest : c = '\\' → rest.head? ≠ some '$') :
    Refers (c :: rest) after ↔ Refers rest after := by
  simp only [refers_cons_iff]
  grind

theorem refers_append_iff (hds : ∀ d ∈ ds, d.isDigit) :
    Refers (ds ++ rest) after ↔ Refers rest after := by
  induction ds with
  | nil => rfl
  | cons d ds ih =>
    obtain ⟨hd, hds⟩ := List.forall_mem_cons.1 hds
    rw [List.cons_append, refers_char_iff, ih hds]
    · rintro rfl
      cases hd
    · rintro rfl
      cases hd

theorem refers_reference_iff (hds : ∀ d ∈ ds, d.isDigit) :
    Refers ('$' :: (ds ++ rest)) after ↔ after = ds ++ rest ∨ Refers rest after := by
  simp [refers_cons_iff, refers_append_iff hds]

/-- The references among the parts are the runs of digits behind those dollar signs. -/
theorem reference_mem_parts_iff : .reference ds ∈ parts token ↔
    ∃ after, Refers token after ∧ after.takeWhile Char.isDigit = ds := by
  induction token using token_induction with
  | nil => simp [Refers]
  | escape rest ih => simpa [refers_escape_iff] using ih
  | reference run rest hrun hrest ih =>
    rw [parts_reference hrun hrest, List.mem_cons, ih]
    simp only [refers_reference_iff hrun, or_and_right, exists_or, exists_eq_left,
      (takeWhile_run hrun hrest).1, Part.reference.injEq]
    rw [eq_comm]
  | char c rest hc hrest ih => simpa [parts_char hc hrest, refers_char_iff hc hrest] using ih

end Refers

section Index

variable {ms : List Mark} {index : ℕ}

/-- The digits stand for an index that a reference may have. -/
def IsIndex (ds : List Char) : Prop :=
  ds ≠ [] ∧ 1 ≤ Nat.ofDigitChars 10 ds 0 ∧ Nat.ofDigitChars 10 ds 0 ≤ 2 ^ 53 - 1

theorem placeholderIndex_eq_ok_iff :
    placeholderIndex ds = .ok index ↔ IsIndex ds ∧ Nat.ofDigitChars 10 ds 0 = index := by
  have hvalue : decimalValue ds = Nat.ofDigitChars 10 ds 0 := rfl
  have hmax : maxPlaceholderIndex = 2 ^ 53 - 1 := rfl
  unfold placeholderIndex IsIndex
  rw [hvalue, hmax]
  repeat' split
  all_goals simp_all
  all_goals omega

theorem mark_reference_eq_ok_iff {m : Mark} : (Part.reference ds).mark = .ok m ↔
    IsIndex ds ∧ m = .placeholder (Nat.ofDigitChars 10 ds 0) := by
  cases h : placeholderIndex ds with
  | ok index =>
    obtain ⟨hds, rfl⟩ := placeholderIndex_eq_ok_iff.1 h
    simp [Part.mark, h, Except.map, hds, eq_comm]
  | error e =>
    have hds : ¬IsIndex ds := fun hds => by
      rw [placeholderIndex_eq_ok_iff.2 ⟨hds, rfl⟩] at h
      cases h
    simp [Part.mark, h, Except.map, hds]

theorem isIndex_of_reference_mem (h : marks token = .ok ms) (hds : .reference ds ∈ parts token) :
    IsIndex ds := by
  rw [marks_eq_mapM] at h
  obtain ⟨m, hm⟩ := exists_of_mapM_eq_ok h hds
  exact (mark_reference_eq_ok_iff.1 hm).1

/-- Scanning succeeds where each dollar sign without a backslash has an index behind it. -/
theorem exists_marks_iff : (∃ ms, marks token = .ok ms) ↔
    ∀ after, Refers token after → IsIndex (after.takeWhile Char.isDigit) := by
  constructor
  · rintro ⟨ms, h⟩ after hafter
    exact isIndex_of_reference_mem h (reference_mem_parts_iff.2 ⟨after, hafter, rfl⟩)
  · intro h
    rw [marks_eq_mapM]
    refine exists_mapM_eq_ok fun part hpart => ?_
    cases part with
    | escape => exact ⟨_, rfl⟩
    | char c => exact ⟨_, rfl⟩
    | reference ds =>
      obtain ⟨after, hafter, rfl⟩ := reference_mem_parts_iff.1 hpart
      exact ⟨_, mark_reference_eq_ok_iff.2 ⟨h after hafter, rfl⟩⟩

/-- The references among the marks are those among the parts. -/
theorem placeholder_mem_iff (h : marks token = .ok ms) : .placeholder index ∈ ms ↔
    ∃ ds, .reference ds ∈ parts token ∧ Nat.ofDigitChars 10 ds 0 = index := by
  have hmarks := h
  rw [marks_eq_mapM] at h
  rw [mem_iff_of_mapM_eq_ok h]
  constructor
  · rintro ⟨_ | ds | c, hpart, hm⟩
    · cases hm
    · obtain ⟨-, hindex⟩ := mark_reference_eq_ok_iff.1 hm
      exact ⟨ds, hpart, (Mark.placeholder.inj hindex).symm⟩
    · cases hm
  · rintro ⟨ds, hpart, rfl⟩
    exact ⟨_, hpart, mark_reference_eq_ok_iff.2 ⟨isIndex_of_reference_mem hmarks hpart, rfl⟩⟩

end Index

end Patchbay.Segment
