import Patchbay.Proofs.Template.Written

/-!
Substitution. What a scanned token evaluates to is the token with each of its parts replaced, or
the very atom that it refers to when it is a single reference. The parts are found in the token
alone, so what comes from a message is never scanned.
-/
namespace Patchbay

variable {m : Message} {index : ℕ}

/-- The text of the atom at a position counted from one. -/
def Message.textAt (m : Message) (index : ℕ) : List Char :=
  match m[index - 1]? with
  | some a => a.text.toList
  | none => []

/-- What takes the place of a part of a token. -/
def Segment.Part.filled (m : Message) : Segment.Part → List Char
  | escape => ['$']
  | reference ds => m.textAt (Nat.ofDigitChars 10 ds 0)
  | char c => [c]

def Mark.filled (m : Message) : Mark → List Char
  | .char c => [c]
  | .placeholder index => m.textAt index

theorem Message.exists_atomAt (hlow : 1 ≤ index) (hhigh : index ≤ m.length) :
    ∃ a, m[index - 1]? = some a ∧ m.atomAt index = .ok a := by
  have hlt : index - 1 < m.length := by omega
  have hget : m[index - 1]? = some m[index - 1] := List.getElem?_eq_getElem hlt
  refine ⟨_, hget, ?_⟩
  rw [atomAt, if_neg (Nat.ne_of_gt hlow), hget]

namespace Piece

variable {pieces : List Piece} {ms : List Mark}

def filled (m : Message) : Piece → List Char
  | text s => s.toList
  | placeholder index => m.textAt index

theorem exists_evaluate {p : Piece}
    (h : ∀ index, p = placeholder index → 1 ≤ index ∧ index ≤ m.length) :
    ∃ s, p.evaluate m = .ok s ∧ s.toList = p.filled m := by
  cases p with
  | text s => exact ⟨s, rfl, rfl⟩
  | placeholder index =>
    obtain ⟨hlow, hhigh⟩ := h index rfl
    obtain ⟨a, hget, hat⟩ := Message.exists_atomAt hlow hhigh
    refine ⟨a.text, by rw [evaluate, hat]; rfl, ?_⟩
    rw [filled, Message.textAt, hget]

theorem exists_texts (h : ∀ index, placeholder index ∈ pieces → 1 ≤ index ∧ index ≤ m.length) :
    ∃ texts, pieces.mapM (evaluate m) = .ok texts ∧
      (String.join texts).toList = pieces.flatMap (filled m) := by
  induction pieces with
  | nil => exact ⟨[], rfl, rfl⟩
  | cons p pieces ih =>
    obtain ⟨s, hs, hfilled⟩ := exists_evaluate fun index hp => h index (hp ▸ List.mem_cons_self)
    obtain ⟨texts, htexts, hjoin⟩ := ih fun index hp => h index (List.mem_cons_of_mem _ hp)
    refine ⟨s :: texts, by rw [List.mapM_cons, hs, htexts]; rfl, ?_⟩
    rw [String.join_cons, String.toList_append, hfilled, hjoin, List.flatMap_cons]

theorem le_maxPlaceholder (h : placeholder index ∈ pieces) :
    index ≤ (Segment.text pieces).maxPlaceholder := by
  induction pieces with
  | nil => cases h
  | cons p pieces ih =>
    rcases List.mem_cons.1 h with rfl | h
    · exact Nat.le_max_left _ _
    · have hrest : index ≤ (Segment.text pieces).maxPlaceholder := ih h
      cases p with
      | text s => exact hrest
      | placeholder k => exact Nat.le_trans hrest (Nat.le_max_right _ _)

theorem exists_ofMarks_char (c : Char) (ms : List Mark) :
    ∃ s rest, ofMarks (.char c :: ms) = text s :: rest := by
  rw [ofMarks]
  rcases ofMarks ms with _ | ⟨s | k, rest⟩ <;> exact ⟨_, _, rfl⟩

theorem eq_nil_of_ofMarks_eq (h : ofMarks ms = []) : ms = [] := by
  rcases ms with _ | ⟨c | k, ms⟩
  · rfl
  · obtain ⟨s, rest, hchar⟩ := exists_ofMarks_char c ms
    rw [hchar] at h
    cases h
  · cases h

/-- A reference on its own comes from a reference on its own. -/
theorem eq_of_ofMarks_eq (h : ofMarks ms = [placeholder index]) : ms = [.placeholder index] := by
  rcases ms with _ | ⟨c | k, ms⟩
  · cases h
  · obtain ⟨s, rest, hchar⟩ := exists_ofMarks_char c ms
    rw [hchar] at h
    cases h
  · obtain ⟨hk, hms⟩ := List.cons.inj h
    rw [Piece.placeholder.inj hk, eq_nil_of_ofMarks_eq hms]

end Piece

namespace Segment

variable {ms : List Mark} {ps : List Part} {token ds : List Char}

theorem filled_mark {part : Part} {mark : Mark} (h : part.mark = .ok mark) :
    mark.filled m = part.filled m := by
  cases part with
  | escape => cases h; rfl
  | char c => cases h; rfl
  | reference ds =>
    obtain ⟨-, rfl⟩ := mark_reference_eq_ok_iff.1 h
    rfl

theorem filled_marks (h : marks token = .ok ms) :
    ms.flatMap (Mark.filled m) = (parts token).flatMap (Part.filled m) := by
  rw [marks_eq_mapM] at h
  generalize parts token = ps at h
  induction forall₂_of_mapM_eq_ok h with
  | nil => rfl
  | cons hmark hrest ih =>
    rw [List.flatMap_cons, List.flatMap_cons, filled_mark hmark, ih (mapM_eq_ok_of_forall₂ hrest)]

/-- A token is scanned as one reference where it is a dollar sign with digits behind it. -/
theorem eq_of_marks_eq_singleton (h : marks token = .ok [.placeholder index]) :
    ∃ ds, token = '$' :: ds ∧ ∀ d ∈ ds, d.isDigit := by
  have hsource := flatMap_source_parts token
  obtain ⟨ds, hds, -⟩ := (placeholder_mem_iff h).1 List.mem_cons_self
  obtain ⟨after, -, rfl⟩ := reference_mem_parts_iff.1 hds
  rw [marks_eq_mapM] at h
  obtain ⟨part, hpart⟩ := List.length_eq_one_iff.1 (forall₂_of_mapM_eq_ok h).length_eq
  rw [hpart] at hds hsource
  obtain rfl := List.mem_singleton.1 hds
  exact ⟨_, by simpa [Part.source] using hsource.symm, fun d hd => List.mem_takeWhile_imp hd⟩

theorem marks_lone (hds : ∀ d ∈ ds, d.isDigit) (h : marks ('$' :: ds) = .ok ms) :
    ms = [.placeholder (Nat.ofDigitChars 10 ds 0)] := by
  have hparts : parts ('$' :: (ds ++ [])) = .reference ds :: parts [] :=
    parts_reference hds (by simp)
  rw [List.append_nil, parts_nil] at hparts
  rw [marks_eq_mapM, hparts] at h
  cases forall₂_of_mapM_eq_ok h with
  | cons hmark hrest =>
    cases hrest
    rw [(mark_reference_eq_ok_iff.1 hmark).2]

theorem evaluate_text {pieces : List Piece} {texts : List String}
    (hlone : ∀ index, pieces ≠ [.placeholder index])
    (htexts : pieces.mapM (Piece.evaluate m) = .ok texts) :
    (text pieces).evaluate m = .ok (.symbol (String.join texts)) := by
  unfold evaluate
  split
  · next heq => cases heq
  · next index heq => exact absurd (Segment.text.inj heq) (hlone index)
  · next heq =>
    cases heq
    rw [htexts]
    rfl

theorem evaluate_ofMarks (hlone : ∀ index, ms ≠ [.placeholder index])
    (hrange : ∀ index, .placeholder index ∈ ms → 1 ≤ index ∧ index ≤ m.length) :
    (ofMarks ms).evaluate m = .ok (.symbol (String.ofList (ms.flatMap (Mark.filled m)))) := by
  unfold ofMarks
  split
  · have hlone' (index : ℕ) : Piece.ofMarks ms ≠ [.placeholder index] :=
      fun h => hlone index (Piece.eq_of_ofMarks_eq h)
    have hrange' (index : ℕ) (h : .placeholder index ∈ Piece.ofMarks ms) :
        1 ≤ index ∧ index ≤ m.length := hrange index (Piece.placeholder_mem_ofMarks_iff.1 h)
    have htext (s : String) : Piece.filled m (.text s) =
        s.toList.flatMap fun c => Mark.filled m (.char c) := by
      simp [Piece.filled, Mark.filled]
    obtain ⟨texts, htexts, hjoin⟩ := Piece.exists_texts hrange'
    rw [evaluate_text hlone' htexts, ← Piece.flatMap_ofMarks htext fun _ => rfl, ← hjoin,
      String.ofList_toList]
  · next hnone =>
    conv_rhs => rw [eq_map_chars hnone, List.flatMap_map]
    simp [evaluate, Mark.filled]

/-- A message that is long enough has an atom for every reference. -/
theorem range_of_maxPlaceholder_le (h : marks token = .ok ms)
    (hlong : (ofMarks ms).maxPlaceholder ≤ m.length) (hindex : .placeholder index ∈ ms) :
    1 ≤ index ∧ index ≤ m.length := by
  constructor
  · obtain ⟨ds, hds, rfl⟩ := (placeholder_mem_iff h).1 hindex
    exact (isIndex_of_reference_mem h hds).2.1
  · have htext : ofMarks ms = .text (Piece.ofMarks ms) :=
      if_pos (any_isPlaceholder_iff.2 ⟨_, hindex⟩)
    rw [htext] at hlong
    exact (Piece.le_maxPlaceholder (Piece.placeholder_mem_ofMarks_iff.2 hindex)).trans hlong

/-- A token that is scanned is evaluated, for any message that is long enough, to the very atom that
it refers to if it is a single reference. Any other gives the symbol in which each part of the token
is replaced: an escaped dollar sign by a dollar sign, a reference by the text of its atom. -/
theorem evaluate_ofSymbol {token : String} {s : Segment} (hs : ofSymbol token = .ok s) :
    (parts token.toList).flatMap Part.source = token.toList ∧
    ∀ m : Message, s.maxPlaceholder ≤ m.length →
      (∀ ds, .reference ds ∈ parts token.toList →
        1 ≤ Nat.ofDigitChars 10 ds 0 ∧ Nat.ofDigitChars 10 ds 0 ≤ m.length) ∧
      (∀ ds, token.toList = '$' :: ds → (∀ d ∈ ds, d.isDigit) →
        ∃ a, m[Nat.ofDigitChars 10 ds 0 - 1]? = some a ∧ s.evaluate m = .ok a) ∧
      ((¬∃ ds, token.toList = '$' :: ds ∧ ∀ d ∈ ds, d.isDigit) →
        s.evaluate m =
          .ok (.symbol (String.ofList ((parts token.toList).flatMap (Part.filled m))))) := by
  obtain ⟨ms, hms, rfl⟩ := ofSymbol_eq_ok_iff.1 hs
  refine ⟨flatMap_source_parts _, fun m hlong => ?_⟩
  have hrange (index : ℕ) (hindex : .placeholder index ∈ ms) : 1 ≤ index ∧ index ≤ m.length :=
    range_of_maxPlaceholder_le hms hlong hindex
  refine ⟨fun ds hds => hrange _ ((placeholder_mem_iff hms).2 ⟨ds, hds, rfl⟩),
    fun ds htoken hds => ?_, fun hlone => ?_⟩
  · rw [htoken] at hms
    obtain rfl := marks_lone hds hms
    obtain ⟨hlow, hhigh⟩ := hrange _ List.mem_cons_self
    exact Message.exists_atomAt hlow hhigh
  · rw [← filled_marks hms]
    refine evaluate_ofMarks (fun index h => hlone ?_) hrange
    rw [h] at hms
    exact eq_of_marks_eq_singleton hms

theorem exists_of_maxPlaceholder {token : String} {n : ℕ}
    (h : (ofSymbol token).toOption.map maxPlaceholder = some n) :
    ∃ s, ofSymbol token = .ok s ∧ s.maxPlaceholder = n := by
  cases hs : ofSymbol token with
  | error e =>
    rw [hs] at h
    cases h
  | ok s =>
    rw [hs] at h
    exact ⟨s, rfl, Option.some.inj h⟩

/-- The message holds what looks like a reference and an escaped dollar sign. -/
theorem evaluate_ofSymbol_tricky :
    (∃ s, ofSymbol "\\$$2$1" = .ok s ∧ s.maxPlaceholder = 2 ∧
      s.evaluate [.symbol "$2\\$", .float 3] = .ok (.symbol "$3$2\\$")) ∧
    ∃ s, ofSymbol "$02" = .ok s ∧ s.maxPlaceholder = 2 ∧
      s.evaluate [.symbol "$2\\$", .float 3] = .ok (.float 3) := by
  have htwo : (ofSymbol "\\$$2$1").toOption.map maxPlaceholder = some 2 := by decide +kernel
  have htwo' : (ofSymbol "$02").toOption.map maxPlaceholder = some 2 := by decide +kernel
  obtain ⟨s, hs, hmax⟩ := exists_of_maxPlaceholder htwo
  obtain ⟨lone, hlone, hmax'⟩ := exists_of_maxPlaceholder htwo'
  obtain ⟨-, hmany⟩ := evaluate_ofSymbol hs
  obtain ⟨-, hone⟩ := evaluate_ofSymbol hlone
  refine ⟨⟨s, hs, hmax, ?_⟩, lone, hlone, hmax', ?_⟩
  · obtain ⟨-, -, hsymbol⟩ := hmany [.symbol "$2\\$", .float 3] hmax.le
    have hfilled : String.ofList ((parts "\\$$2$1".toList).flatMap
        (Part.filled [.symbol "$2\\$", .float 3])) = "$3$2\\$" := by decide +kernel
    rw [hsymbol, hfilled]
    rintro ⟨ds, hds, -⟩
    cases (List.cons.inj hds).1
  · obtain ⟨-, hatom, -⟩ := hone [.symbol "$2\\$", .float 3] hmax'.le
    obtain ⟨a, ha, heval⟩ := hatom ['0', '2'] (by decide) (by simp)
    cases ha
    exact heval

end Segment

end Patchbay
