import Patchbay.Code.Basic
import Patchbay.Proofs.Template.Literal

/-!
Rows of a text: what stands between the characters that end a line. Texts are written line by line,
each line with a line feed behind it, and the rows of the whole are those of the lines.
-/
namespace Patchbay

namespace Text

/-- What stands between the characters that end a line. -/
def rows (ends : Char → Bool) (text : String) : List (List Char) := text.toList.splitOnP ends

/-- The line terminators of the emitted language. -/
def endsLine (c : Char) : Bool :=
  c = '\n' || c = '\r' || c.toNat = 0x2028 || c.toNat = 0x2029

/-- The line feed ends a line, and no character does that may stand inside of one. -/
structure LineEnds (ends : Char → Bool) : Prop where
  feed : ends '\n'
  not_inline : ∀ c, isInline c → ends c = false

theorem lineEnds_feed : LineEnds (· = '\n') where
  feed := rfl
  not_inline c hc := by
    refine decide_eq_false fun h => ?_
    rw [h] at hc
    exact absurd hc (by decide)

theorem lineEnds_endsLine : LineEnds endsLine where
  feed := rfl
  not_inline c hc := by
    have hne (d : Char) (hd : isInline d = false) : c ≠ d := by
      rintro rfl
      rw [hc] at hd
      cases hd
    simp only [isInline, Bool.and_eq_true, decide_eq_true_eq] at hc
    simp [endsLine, hne '\n' (by decide), hne '\r' (by decide), hc]

variable {ends : Char → Bool}

theorem rows_append_feed (hfeed : ends '\n') (a b : String) :
    rows ends (a ++ "\n" ++ b) = rows ends a ++ rows ends b := by
  rw [rows, String.toList_append, String.toList_append, List.append_assoc]
  exact List.splitOnP_append_cons _ _ hfeed

theorem rows_of_forall {text : String} (h : ∀ c ∈ text.toList, ends c = false) :
    rows ends text = [text.toList] :=
  List.splitOnP_eq_singleton h

end Text

/-- A text on one line has no other rows. -/
theorem OneLine.not_ends {ends : Char → Bool} {text : String} (h : OneLine text)
    (hends : Text.LineEnds ends) : ∀ c ∈ text.toList, ends c = false :=
  fun c hc => hends.not_inline c (List.all_eq_true.1 h c hc)

namespace Code

variable {ends : Char → Bool} {ls : List String}

theorem unlines_cons (l : String) (ls : List String) :
    unlines (l :: ls) = l ++ "\n" ++ unlines ls := by
  rw [unlines, List.map_cons, String.join_cons]
  rfl

theorem append_unlines_cons (a l : String) (ls : List String) :
    a ++ unlines (l :: ls) = unlines ((a ++ l) :: ls) := by
  rw [unlines_cons, unlines_cons, String.append_assoc, String.append_assoc, String.append_assoc]

theorem unlines_append (ls ms : List String) :
    unlines (ls ++ ms) = unlines ls ++ unlines ms := by
  rw [unlines, List.map_append, String.join_append]
  rfl

theorem rows_unlines (hfeed : ends '\n') (ls : List String) :
    Text.rows ends (unlines ls) = ls.flatMap (Text.rows ends) ++ [[]] := by
  induction ls with
  | nil => rfl
  | cons l ls ih => rw [unlines_cons, Text.rows_append_feed hfeed, ih, List.flatMap_cons,
      List.append_assoc]

/-- The computation gives these lines, each with its line feed. -/
abbrev Prints (x : Except Fault String) (ls : List String) : Prop := x = .ok (unlines ls)

theorem prints_of_lines {code : Code} (h : code.lines = .ok ls) : Prints code.render ls := by
  rw [Prints, render, h]
  rfl

/-- What is printed item by item is printed in one. -/
theorem exists_mapM_prints {α : Type} {f : α → Except Fault String} {as : List α}
    {lss : List (List String)} (h : List.Forall₂ (fun a ls => Prints (f a) ls) as lss) :
    ∃ texts, as.mapM f = .ok texts ∧ String.join texts = unlines lss.flatten := by
  induction h with
  | nil => exact ⟨[], rfl, rfl⟩
  | cons ha _ ih =>
    obtain ⟨texts, htexts, hjoin⟩ := ih
    refine ⟨_, by rw [List.mapM_cons, ha, htexts]; rfl, ?_⟩
    rw [String.join_cons, hjoin, List.flatten_cons, unlines_append]

end Code

end Patchbay
