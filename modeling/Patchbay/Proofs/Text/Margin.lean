import Mathlib
import Patchbay.Proofs.Code.Rendering
import Patchbay.Proofs.Template.Groups

/-!
Margins. The lines of a text lose the margin that all of them share, counted in bytes, and the white
space at their ends. A margin can be taken off where it ends between two characters of each line;
what it leaves are lines that lose nothing when they are cut again.
-/
namespace Patchbay.Text

section Bytes

variable {n : ℕ} {cs ds margin rest : List Char}

/-- The first `n` bytes of the line are whole characters. -/
def Boundary (n : ℕ) (line : List Char) : Prop :=
  ∃ margin rest, line = margin ++ rest ∧ byteLength margin = n

theorem dropBytes_eq_some_iff :
    dropBytes n cs = some ds ↔ ∃ margin, cs = margin ++ ds ∧ byteLength margin = n := by
  constructor
  · intro h
    induction cs generalizing n with
    | nil =>
      cases n with
      | zero => exact ⟨[], by simpa using h, rfl⟩
      | succ n => cases h
    | cons c cs ih =>
      cases n with
      | zero => exact ⟨[], by simpa using h, rfl⟩
      | succ n =>
        rw [dropBytes] at h
        split at h
        · next hc =>
          obtain ⟨margin, rfl, hmargin⟩ := ih h
          refine ⟨c :: margin, rfl, ?_⟩
          rw [byteLength_cons]
          omega
        · cases h
  · rintro ⟨margin, rfl, rfl⟩
    exact dropBytes_byteLength_append margin ds

theorem exists_dropBytes_iff : (∃ ds, dropBytes n cs = some ds) ↔ Boundary n cs := by
  constructor
  · rintro ⟨ds, h⟩
    obtain ⟨margin, hcs, hmargin⟩ := dropBytes_eq_some_iff.1 h
    exact ⟨margin, ds, hcs, hmargin⟩
  · rintro ⟨margin, ds, hcs, hmargin⟩
    exact ⟨ds, dropBytes_eq_some_iff.2 ⟨margin, hcs, hmargin⟩⟩

end Bytes

section Indentation

variable {c : Char} {line margin rest : List Char} {ls : List (List Char)}

theorem indentation_cons_of_blank (hc : isBlank c) (cs : List Char) :
    indentation (c :: cs) = c.utf8Size + indentation cs := by
  rw [indentation, List.takeWhile_cons_of_pos hc, byteLength_cons, indentation]

theorem indentation_cons_of_not_blank (hc : isBlank c = false) (cs : List Char) :
    indentation (c :: cs) = 0 := by
  rw [indentation, List.takeWhile_cons_of_neg (by simp [hc]), byteLength_nil]

theorem indentation_append (h : ∀ c ∈ margin, isBlank c) (rest : List Char) :
    indentation (margin ++ rest) = byteLength margin + indentation rest := by
  induction margin with
  | nil => simp
  | cons c margin ih =>
    obtain ⟨hc, hmargin⟩ := List.forall_mem_cons.1 h
    rw [List.cons_append, indentation_cons_of_blank hc, ih hmargin, byteLength_cons, Nat.add_assoc]

/-- What is no longer than the indentation is white space. -/
theorem blank_of_byteLength_le (h : byteLength margin ≤ indentation (margin ++ rest)) :
    ∀ c ∈ margin, isBlank c := by
  induction margin with
  | nil => exact fun c hc => absurd hc List.not_mem_nil
  | cons c margin ih =>
    rw [byteLength_cons, List.cons_append] at h
    by_cases hc : isBlank c
    · rw [indentation_cons_of_blank hc] at h
      exact List.forall_mem_cons.2 ⟨hc, ih (by omega)⟩
    · have := c.utf8Size_pos
      rw [indentation_cons_of_not_blank (by simpa using hc)] at h
      omega

theorem exists_indentation_eq (h : ls ≠ []) :
    ∃ line ∈ ls, indentation line = sharedIndentation ls := by
  obtain ⟨n, hn⟩ : ∃ n, (ls.map indentation).min? = some n :=
    Option.isSome_iff_exists.1 (List.isSome_min?_of_ne_nil (by simpa using h))
  obtain ⟨line, hline, rfl⟩ := List.mem_map.1 (List.min?_eq_some_iff.1 hn).1
  exact ⟨line, hline, by rw [sharedIndentation, hn, Option.getD_some]⟩

theorem sharedIndentation_of_flush (hmem : line ∈ ls) (hline : indentation line = 0) :
    sharedIndentation ls = 0 :=
  Nat.eq_zero_of_le_zero (hline ▸ sharedIndentation_le hmem)

theorem byteLength_of_uniform {size : ℕ} {cs : List Char} (h : ∀ c ∈ cs, c.utf8Size = size) :
    byteLength cs = cs.length * size := by
  induction cs with
  | nil => simp
  | cons c cs ih =>
    obtain ⟨hc, hcs⟩ := List.forall_mem_cons.1 h
    rw [byteLength_cons, hc, ih hcs, List.length_cons, Nat.succ_mul, Nat.add_comm]

/-- Where all white space in front of the lines is of one size, their margin is whole characters. -/
theorem boundary_of_uniform {size : ℕ}
    (h : ∀ line ∈ ls, ∀ c ∈ line.takeWhile isBlank, c.utf8Size = size) (hline : line ∈ ls) :
    Boundary (sharedIndentation ls) line := by
  obtain ⟨least, hleast, hshared⟩ := exists_indentation_eq (List.ne_nil_of_mem hline)
  have hmin : sharedIndentation ls ≤ indentation line := sharedIndentation_le hline
  rw [← hshared, indentation, indentation, byteLength_of_uniform (h line hline),
    byteLength_of_uniform (h least hleast)] at hmin
  -- As many characters as the least indentation has.
  let blanks := (line.takeWhile isBlank).take (least.takeWhile isBlank).length
  have hinitial : blanks <+: line :=
    (List.take_prefix _ _).trans (List.takeWhile_prefix isBlank)
  obtain ⟨rest, hrest⟩ := hinitial
  refine ⟨blanks, rest, hrest.symm, ?_⟩
  have hblanks : ∀ c ∈ blanks, c.utf8Size = size :=
    fun c hc => h line hline c (List.mem_of_mem_take hc)
  rw [byteLength_of_uniform hblanks, ← hshared, indentation,
    byteLength_of_uniform (h least hleast), List.length_take]
  rcases Nat.eq_zero_or_pos size with rfl | hsize
  · simp
  · rw [Nat.min_eq_left (Nat.le_of_mul_le_mul_right hmin hsize)]

end Indentation

section Lines

variable {c : Char} {n : ℕ} {text row line front trail : List Char} {ls ms outs : List (List Char)}

theorem trimmed_iff : Trimmed line ↔ '\n' ∉ line ∧ line.getLast?.any (!isBlank ·) := by
  have hlast : line.getLast?.any (!isBlank ·) ↔
      ∃ front c, line = front ++ [c] ∧ isBlank c = false := by
    simp only [Option.any_eq_true, List.getLast?_eq_some_iff, Bool.not_eq_true']
    constructor
    · rintro ⟨c, ⟨front, h⟩, hc⟩
      exact ⟨front, c, h, hc⟩
    · rintro ⟨front, c, h, hc⟩
      exact ⟨c, ⟨front, h⟩, hc⟩
  rw [hlast]
  exact ⟨fun h => ⟨h.newline, h.last⟩, fun h => ⟨h.1, h.2⟩⟩

instance : DecidablePred Trimmed := fun _ => decidable_of_iff _ trimmed_iff.symm

theorem trimEnd_eq (row : List Char) : trimEnd row = row.rdropWhile isBlank := rfl

theorem Trimmed.prepend (h : Trimmed line) (hfront : '\n' ∉ front) : Trimmed (front ++ line) := by
  obtain ⟨rest, c, hline, hc⟩ := h.last
  refine ⟨?_, front ++ rest, c, by rw [hline, List.append_assoc], hc⟩
  rw [List.mem_append, not_or]
  exact ⟨hfront, h.newline⟩

theorem Trimmed.of_append (h : Trimmed (front ++ line)) (hblank : ∀ c ∈ front, isBlank c) :
    Trimmed line := by
  obtain ⟨rest, c, hrest, hc⟩ := h.last
  refine ⟨fun hnewline => h.newline (List.mem_append_right _ hnewline), ?_⟩
  rcases line.eq_nil_or_concat' with rfl | ⟨rest', d, rfl⟩
  · have hmem : c ∈ front := by
      rw [← List.append_nil front, hrest]
      exact List.mem_append_right _ (List.mem_singleton_self c)
    rw [hblank c hmem] at hc
    cases hc
  · rw [← List.append_assoc] at hrest
    obtain ⟨-, hlast⟩ := List.append_inj' hrest rfl
    exact ⟨rest', c, by rw [hlast], hc⟩

theorem Trimmed.not_blank (h : Trimmed line) : ∃ c ∈ line, isBlank c = false := by
  obtain ⟨front, c, rfl, hc⟩ := h.last
  exact ⟨c, List.mem_append_right _ (List.mem_singleton_self c), hc⟩

/-- White space behind a line does not count. -/
theorem Trimmed.indentation_append (h : Trimmed line) (trail : List Char) :
    indentation (line ++ trail) = indentation line := by
  obtain ⟨c, hc, hblank⟩ := h.not_blank
  rw [indentation, List.takeWhile_append, if_neg, indentation]
  intro hall
  have hinitial := (List.takeWhile_prefix isBlank (l := line)).eq_of_length hall
  have := List.mem_takeWhile_imp (hinitial ▸ hc)
  simp [hblank] at this

/-- The rows of a text that hold more than white space. -/
def filledRows (text : List Char) : List (List Char) :=
  (text.splitOn '\n').filter (·.any (!isBlank ·))

theorem lines_eq (text : List Char) : lines text = (filledRows text).map trimEnd := by
  rw [lines, filledRows, List.filter_map]
  congr 1
  apply List.filter_congr
  intro row _
  rw [Function.comp_apply, Bool.eq_iff_iff]
  simp [Text.trimEnd_eq, List.rdropWhile_eq_nil_iff]

theorem trimmed_of_mem_filledRows (h : row ∈ filledRows text) : Trimmed (trimEnd row) := by
  obtain ⟨hrow, hfilled⟩ := List.mem_filter.1 h
  have hne : row.rdropWhile isBlank ≠ [] := by
    simpa [List.rdropWhile_eq_nil_iff] using hfilled
  refine ⟨fun hnewline => ?_, _, _, (List.dropLast_append_getLast hne).symm, ?_⟩
  · exact apart_splitOnP _ _ row hrow _ (trimEnd_subset row hnewline) (by simp)
  · simpa using List.rdropWhile_last_not isBlank row hne

/-- What a row becomes that loses a margin of `n` bytes and the white space at its end. -/
structure Cut (n : ℕ) (row line : List Char) : Prop where
  parts : ∃ margin trail, row = margin ++ line ++ trail ∧ byteLength margin = n ∧
    (∀ c ∈ margin, isBlank c) ∧ ∀ c ∈ trail, isBlank c
  trimmed : Trimmed line

theorem Cut.indentation_eq (h : Cut n row line) : indentation row = n + indentation line := by
  obtain ⟨margin, trail, rfl, rfl, hmargin, -⟩ := h.parts
  rw [List.append_assoc, indentation_append hmargin, h.trimmed.indentation_append]

theorem cut_of_dropBytes (h : row ∈ filledRows text) (hn : n ≤ indentation (trimEnd row))
    (hline : dropBytes n (trimEnd row) = some line) : Cut n row line := by
  obtain ⟨margin, hrow, rfl⟩ := dropBytes_eq_some_iff.1 hline
  have hblank : ∀ c ∈ margin, isBlank c := blank_of_byteLength_le (hrow ▸ hn)
  have htrimmed := trimmed_of_mem_filledRows h
  refine ⟨⟨margin, row.rtakeWhile isBlank, ?_, rfl, hblank, fun c => List.mem_rtakeWhile_imp⟩, ?_⟩
  · rw [← hrow, Text.trimEnd_eq, List.rdropWhile_append_rtakeWhile]
  · exact (hrow ▸ htrimmed).of_append hblank

/-- The margin can be taken off where it is whole characters on each line. -/
theorem exists_dedent_iff : (∃ outs, dedent text = some outs) ↔
    ∀ line ∈ lines text, Boundary (sharedIndentation (lines text)) line := by
  constructor
  · rintro ⟨outs, h⟩ line hline
    obtain ⟨out, -, hout⟩ := exists_mem_of_forall₂ (mapM_eq_some_iff.1 h) hline
    exact exists_dropBytes_iff.1 ⟨out, hout⟩
  · intro h
    obtain ⟨outs, houts⟩ := exists_forall₂ fun line hline => exists_dropBytes_iff.2 (h line hline)
    exact ⟨outs, mapM_eq_some_iff.2 houts⟩

theorem filledRows_cut (h : dedent text = some outs) :
    List.Forall₂ (Cut (sharedIndentation (lines text))) (filledRows text) outs := by
  have hdrop : List.Forall₂
      (fun line out => dropBytes (sharedIndentation (lines text)) line = some out)
      ((filledRows text).map trimEnd) outs := by
    rw [← lines_eq]
    exact mapM_eq_some_iff.1 h
  rw [List.forall₂_map_left_iff] at hdrop
  have hrows := (List.forall₂_and_left _ _).2
    ⟨fun row (hrow : row ∈ filledRows text) => hrow, hdrop⟩
  refine hrows.imp fun row out ⟨hrow, hout⟩ => cut_of_dropBytes hrow ?_ hout
  have hmem : trimEnd row ∈ lines text := by
    rw [lines_eq]
    exact List.mem_map_of_mem hrow
  exact sharedIndentation_le hmem

/-- Lines that stay as they are when a text of them is cut. -/
structure Settled (ls : List (List Char)) : Prop where
  trimmed : ∀ line ∈ ls, Trimmed line
  flush : ls = [] ∨ ∃ line ∈ ls, indentation line = 0

theorem settled_nil : Settled [] := ⟨fun _ h => absurd h List.not_mem_nil, .inl rfl⟩

theorem settled_singleton (h : Trimmed line) (hflush : indentation line = 0) :
    Settled [line] :=
  ⟨List.forall_mem_singleton.2 h, .inr ⟨line, List.mem_singleton_self line, hflush⟩⟩

theorem Settled.append (h : Settled ls) (h' : Settled ms) : Settled (ls ++ ms) where
  trimmed line hline := (List.mem_append.1 hline).elim (h.trimmed line) (h'.trimmed line)
  flush := by
    rcases h.flush with rfl | ⟨line, hline, hzero⟩
    · exact h'.flush
    · exact .inr ⟨line, List.mem_append_left _ hline, hzero⟩

/-- One line at the very left is enough. -/
theorem Settled.append_of_ne_nil (h : Settled ls) (hne : ls ≠ [])
    (hms : ∀ line ∈ ms, Trimmed line) : Settled (ls ++ ms) where
  trimmed line hline := (List.mem_append.1 hline).elim (h.trimmed line) (hms line)
  flush := by
    obtain ⟨line, hline, hzero⟩ := h.flush.resolve_left hne
    exact .inr ⟨line, List.mem_append_left _ hline, hzero⟩

theorem Settled.sharedIndentation_eq (h : Settled ls) : sharedIndentation ls = 0 := by
  rcases h.flush with rfl | ⟨line, hline, hzero⟩
  · rfl
  · exact sharedIndentation_of_flush hline hzero

theorem filledRows_join (h : ∀ line ∈ ls, Trimmed line) :
    filledRows (ls.flatMap (· ++ ['\n'])) = ls := by
  induction ls with
  | nil => rfl
  | cons line ls ih =>
    obtain ⟨hline, hls⟩ := List.forall_mem_cons.1 h
    have hfilled : line.any (!isBlank ·) := by simpa using hline.not_blank
    rw [List.flatMap_cons, List.append_assoc, List.singleton_append, filledRows,
      List.splitOn_append_cons_self_of_not_mem hline.newline, List.filter_cons, if_pos hfilled]
    exact congrArg (line :: ·) (ih hls)

theorem lines_join (h : ∀ line ∈ ls, Trimmed line) : lines (ls.flatMap (· ++ ['\n'])) = ls := by
  rw [lines_eq, filledRows_join h]
  exact (List.map_congr_left fun line hline => (h line hline).trimEnd_eq).trans (List.map_id ls)

/-- Settled lines lose nothing. -/
theorem Settled.dedent_eq (h : Settled ls) : dedent (ls.flatMap (· ++ ['\n'])) = some ls := by
  rw [dedent, lines_join h.trimmed, h.sharedIndentation_eq]
  exact mapM_eq_some_iff.2 (List.forall₂_same.2 fun line _ => dropBytes_zero line)

/-- What is left of a text is settled: its least indentation is nothing. -/
theorem settled_of_dedent (h : dedent text = some outs) : Settled outs := by
  have hcut := filledRows_cut h
  refine ⟨fun out hout => ?_, ?_⟩
  · obtain ⟨row, -, hrow⟩ := exists_mem_of_forall₂ hcut.flip hout
    exact hrow.trimmed
  · rcases eq_or_ne (filledRows text) [] with hnone | hsome
    · rw [hnone] at hcut
      exact .inl (List.forall₂_nil_left_iff.1 hcut)
    · have hlines : lines text ≠ [] := by
        rw [lines_eq]
        simpa using hsome
      obtain ⟨line, hline, hshared⟩ := exists_indentation_eq hlines
      rw [lines_eq] at hline
      obtain ⟨row, hrow, rfl⟩ := List.mem_map.1 hline
      obtain ⟨out, hout, hrowcut⟩ := exists_mem_of_forall₂ hcut hrow
      have hindentation : indentation row = indentation (trimEnd row) := by
        rw [← (trimmed_of_mem_filledRows hrow).indentation_append (row.rtakeWhile isBlank),
          Text.trimEnd_eq, List.rdropWhile_append_rtakeWhile]
      have := hrowcut.indentation_eq
      exact .inr ⟨out, hout, by omega⟩

end Lines

end Patchbay.Text
