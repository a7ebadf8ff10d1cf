import Patchbay.Proofs.Program.Frame

/-!
Ids in programs. All names are made of what is left of an id, so the id itself stands nowhere but in
the comment in front of its node. The comment keeps it away from the code as long as no character of
the id ends a line.
-/
namespace Patchbay

open Code (unlines)

namespace Text

/-- The rows of a text that do not begin as the comment in front of a node. -/
def uncommented (ends : Char → Bool) (text : String) : List (List Char) :=
  (rows ends text).filter (!"// [".toList.isPrefixOf ·)

theorem uncommented_unlines {ends : Char → Bool} (hfeed : ends '\n') (ls : List String) :
    uncommented ends (unlines ls) = ls.flatMap (uncommented ends) ++ [[]] := by
  rw [uncommented, Code.rows_unlines hfeed, List.filter_append, List.filter_flatMap]
  rfl

end Text

namespace Declaration

/-- The same but for what is lost of ids. -/
def SameButId (d e : Declaration) : Prop :=
  d.nodeType = e.nodeType ∧ d.args = e.args ∧ sanitized d.id = sanitized e.id

/-- No character of the type or of the id ends a line. -/
def OnOneLine (ends : Char → Bool) (d : Declaration) : Prop :=
  ∀ c ∈ d.nodeType.toList ++ d.id.toList, ends c = false

variable {ends : Char → Bool} {d e : Declaration}

theorem toList_comment (d : Declaration) : d.comment.toList =
    "// [".toList ++ d.nodeType.toList ++ "] ".toList ++ d.id.toList := by
  simp only [comment, commentLine, String.toList_append, ToString.toString]

theorem OnOneLine.of_oneLine (htype : OneLine d.nodeType) (hid : OneLine d.id)
    (hends : Text.LineEnds ends) : d.OnOneLine ends := by
  intro c hc
  rcases List.mem_append.1 hc with hc | hc
  · exact htype.not_ends hends c hc
  · exact hid.not_ends hends c hc

theorem OnOneLine.comment (h : d.OnOneLine ends) (hends : Text.LineEnds ends) :
    ∀ c ∈ d.comment.toList, ends c = false := by
  have hopen : ∀ c ∈ "// [".toList, ends c = false := OneLine.not_ends (by rfl) hends
  have hclose : ∀ c ∈ "] ".toList, ends c = false := OneLine.not_ends (by rfl) hends
  intro c hc
  simp only [toList_comment, List.mem_append] at hc
  rcases hc with ((hc | hc) | hc) | hc
  · exact hopen c hc
  · exact h c (List.mem_append_left _ hc)
  · exact hclose c hc
  · exact h c (List.mem_append_right _ hc)

theorem OnOneLine.rows_comment (h : d.OnOneLine ends) (hends : Text.LineEnds ends) :
    Text.rows ends d.comment = [d.comment.toList] :=
  Text.rows_of_forall (h.comment hends)

theorem OnOneLine.uncommented_comment (h : d.OnOneLine ends) (hends : Text.LineEnds ends) :
    Text.uncommented ends d.comment = [] := by
  rw [Text.uncommented, h.rows_comment hends, toList_comment]
  simp

end Declaration

/-- The comment in front of each node, with lines behind it. -/
def commented (ds : List Declaration) (rests : List (List String)) : List String :=
  (List.zipWith (fun d rest => d.comment :: rest) ds rests).flatten

section Commented

variable {ends : Char → Bool} {ds es : List Declaration} {rests : List (List String)}

theorem comment_mem_commented (hlength : rests.length = ds.length) :
    ∀ d ∈ ds, d.comment ∈ commented ds rests := by
  induction ds generalizing rests with
  | nil => exact fun d hd => absurd hd List.not_mem_nil
  | cons d ds ih =>
    cases rests with
    | nil => cases hlength
    | cons rest rests =>
      refine List.forall_mem_cons.2 ⟨List.mem_cons_self, fun d' hd' => ?_⟩
      exact List.mem_append_right (d.comment :: rest) (ih (Nat.succ.inj hlength) d' hd')

theorem uncommented_commented (hends : Text.LineEnds ends) (hlength : rests.length = ds.length)
    (hds : ∀ d ∈ ds, d.OnOneLine ends) : (commented ds rests).flatMap (Text.uncommented ends) =
      rests.flatten.flatMap (Text.uncommented ends) := by
  induction ds generalizing rests with
  | nil =>
    obtain rfl := List.eq_nil_of_length_eq_zero hlength
    rfl
  | cons d ds ih =>
    cases rests with
    | nil => cases hlength
    | cons rest rests =>
      obtain ⟨hd, hds⟩ := List.forall_mem_cons.1 hds
      rw [commented, List.zipWith_cons_cons, List.flatten_cons, List.cons_append,
        List.flatMap_cons, hd.uncommented_comment hends, List.flatMap_append, ← commented,
        ih (Nat.succ.inj hlength) hds, List.flatten_cons, List.flatMap_append]
      rfl

section Rows

variable {front back : List String} {d : Declaration}

theorem uncommented_unlines_commented (hends : Text.LineEnds ends)
    (hlength : rests.length = ds.length) (hds : ∀ d ∈ ds, d.OnOneLine ends) :
    Text.uncommented ends (unlines (front ++ commented ds rests ++ back)) =
      (front ++ rests.flatten ++ back).flatMap (Text.uncommented ends) ++ [[]] := by
  simp only [Text.uncommented_unlines hends.feed, List.flatMap_append,
    uncommented_commented hends hlength hds]

theorem comment_mem_rows (hends : Text.LineEnds ends) (hlength : rests.length = ds.length)
    (hd : d ∈ ds) (hline : d.OnOneLine ends) :
    d.comment.toList ∈ Text.rows ends (unlines (front ++ commented ds rests ++ back)) := by
  rw [Code.rows_unlines hends.feed]
  refine List.mem_append_left _ (List.mem_flatMap.2 ⟨d.comment, ?_, ?_⟩)
  · exact List.mem_append_left _ (List.mem_append_right _ (comment_mem_commented hlength d hd))
  · rw [hline.rows_comment hends]
    exact List.mem_singleton_self _

end Rows

variable {registry : Registry} {settings : Settings}

/-- Where only ids differ, the state is bound in the same lines. -/
theorem exists_layout_eq_commented (h : List.Forall₂ Declaration.SameButId ds es)
    (hbuilt : ∀ d ∈ ds, ∃ made, registry.build d.nodeType d.args = .ok made)
    (hlength : rests.length = ds.length) : ∃ rests' : List (List String),
      rests'.length = ds.length ∧ Program.layout registry settings ds rests = commented ds rests' ∧
        Program.layout registry settings es rests = commented es rests' := by
  induction h generalizing rests with
  | nil =>
    obtain rfl := List.eq_nil_of_length_eq_zero hlength
    exact ⟨[], rfl, rfl, rfl⟩
  | @cons d e ds es hd _ ih =>
    cases rests with
    | nil => cases hlength
    | cons rest rests =>
      obtain ⟨⟨made, hmade⟩, hbuilt⟩ := List.forall_mem_cons.1 hbuilt
      obtain ⟨rests', hlength', hds, hes⟩ := ih hbuilt (Nat.succ.inj hlength)
      obtain ⟨htype, hargs, hid⟩ := hd
      have hnames : e.names settings = d.names settings := by
        rw [Declaration.names, Declaration.names, Names.ofNode, Names.ofNode, hid]
      have hhead : d.head registry settings =
          d.comment :: made.node.stateLines settings (d.names settings) := by
        rw [Declaration.head, hmade]
      have hhead' : e.head registry settings =
          e.comment :: made.node.stateLines settings (d.names settings) := by
        rw [Declaration.head, ← htype, ← hargs, hmade, hnames]
      refine ⟨(made.node.stateLines settings (d.names settings) ++ rest) :: rests',
        congrArg Nat.succ hlength', ?_, ?_⟩
      · rw [Program.layout, List.zipWith_cons_cons, List.flatten_cons, ← Program.layout, hds, hhead]
        rfl
      · rw [Program.layout, List.zipWith_cons_cons, List.flatten_cons, ← Program.layout, hes,
          hhead']
        rfl

end Commented

namespace Program

variable {registry : Registry} {settings : Settings} {ds es : List Declaration} {p q : Program}

/-- Programs whose declarations differ in ids only have all lines in common but for the comments in
front of the nodes. -/
theorem exists_commented (hproper : Text.isIdentifier settings.variablePrefix.toList)
    (h : List.Forall₂ Declaration.SameButId ds es) (hp : compile registry settings ds = .ok p)
    (hq : compile registry settings es = .ok q) :
    ∃ (front back : List String) (rests : List (List String)), rests.length = ds.length ∧
      p.render = .ok (unlines (front ++ commented ds rests ++ back)) ∧
      q.render = .ok (unlines (front ++ commented es rests ++ back)) := by
  have halike : List.Forall₂ Declaration.Alike ds es := h.imp fun d e hd => ⟨hd.1, hd.2.2⟩
  obtain ⟨front, back, rests, hlength, hs, ht⟩ := exists_frame halike hproper hp hq
  obtain ⟨nodes, hnodes, -⟩ := compile_eq_ok_iff.1 hp
  obtain ⟨rests', hlength', hds, hes⟩ :=
    exists_layout_eq_commented h (built_of_makes hnodes) hlength
  rw [hds] at hs
  rw [hes] at ht
  exact ⟨front, back, rests', hlength', hs, ht⟩

/-- Two declaration lists that differ in ids only, and not in what is left of these, are compiled to
programs that differ in the comments in front of the nodes only. If no character of an id or a type
ends a line, then each comment is a row of its text, and without comments the rows are the same. -/
theorem ids_stay_in_comments (hproper : Text.isIdentifier settings.variablePrefix.toList)
    (h : List.Forall₂ Declaration.SameButId ds es) (hp : compile registry settings ds = .ok p)
    (hq : compile registry settings es = .ok q) :
    ∃ s t, p.render = .ok s ∧ q.render = .ok t ∧
      (∃ (front back : List String) (rests : List (List String)), rests.length = ds.length ∧
        s = unlines (front ++ commented ds rests ++ back) ∧
        t = unlines (front ++ commented es rests ++ back)) ∧
      ∀ ends, Text.LineEnds ends → (∀ d ∈ ds, d.OnOneLine ends) → (∀ e ∈ es, e.OnOneLine ends) →
        Text.uncommented ends s = Text.uncommented ends t ∧
        (∀ d ∈ ds, d.comment.toList ∈ Text.rows ends s) ∧
        ∀ e ∈ es, e.comment.toList ∈ Text.rows ends t := by
  obtain ⟨front, back, rests, hlength, hs, ht⟩ := exists_commented hproper h hp hq
  refine ⟨_, _, hs, ht, ⟨front, back, rests, hlength, rfl, rfl⟩, fun ends hends hds hes => ?_⟩
  have hlength' : rests.length = es.length := hlength.trans h.length_eq
  refine ⟨?_, ?_, ?_⟩
  · rw [uncommented_unlines_commented hends hlength hds,
      uncommented_unlines_commented hends hlength' hes]
  · exact fun d hd => comment_mem_rows hends hlength hd (hds d hd)
  · exact fun e he => comment_mem_rows hends hlength' he (hes e he)

/-- The ids of the second list are what is left of those of the first. -/
def spaced : List Declaration := [⟨"low osc", "abs~", []⟩, ⟨"mix/1", "msg", [.symbol "$1"]⟩]

def joined : List Declaration := [⟨"low_osc", "abs~", []⟩, ⟨"mix_1", "msg", [.symbol "$1"]⟩]

theorem ids_stay_in_comments_joined : ∃ p q s t, compile .builtin {} spaced = .ok p ∧
    compile .builtin {} joined = .ok q ∧ p.render = .ok s ∧ q.render = .ok t ∧
    Text.uncommented Text.endsLine s = Text.uncommented Text.endsLine t ∧
    ∀ d ∈ spaced, d.comment.toList ∈ Text.rows Text.endsLine s := by
  obtain ⟨p, hp⟩ := exists_compile_of_toBool (show (compileNodes .builtin {} [] spaced).toBool by
    decide +kernel)
  obtain ⟨q, hq⟩ := exists_compile_of_toBool (show (compileNodes .builtin {} [] joined).toBool by
    decide +kernel)
  have hsame : List.Forall₂ Declaration.SameButId spaced joined :=
    .cons ⟨rfl, rfl, by decide⟩ (.cons ⟨rfl, rfl, by decide⟩ .nil)
  have hinline : ∀ d ∈ spaced ++ joined, d.OnOneLine Text.endsLine := by
    simp only [spaced, joined, List.cons_append, List.nil_append, List.forall_mem_cons]
    refine ⟨?_, ?_, ?_, ?_, fun d hd => absurd hd List.not_mem_nil⟩
    all_goals exact .of_oneLine rfl rfl Text.lineEnds_endsLine
  obtain ⟨s, t, hs, ht, -, hrows⟩ := ids_stay_in_comments (by decide) hsame hp hq
  obtain ⟨heq, hcomments, -⟩ := hrows Text.endsLine Text.lineEnds_endsLine
    (fun d hd => hinline d (List.mem_append_left _ hd))
    (fun e he => hinline e (List.mem_append_right _ he))
  exact ⟨p, q, s, t, hp, hq, hs, ht, heq, hcomments⟩

/-- Where one id has a line feed in place of what is left of it. -/
def broken : Declaration := ⟨"a\nb", "abs~", []⟩

def whole : Declaration := ⟨"a_b", "abs~", []⟩

/-- With a line feed in its id, the comment of a node goes on as code. -/
theorem ids_leave_comments : List.Forall₂ Declaration.SameButId [broken] [whole] ∧
    ∃ p q s t, compile .builtin {} [broken] = .ok p ∧ compile .builtin {} [whole] = .ok q ∧
      p.render = .ok s ∧ q.render = .ok t ∧
      Text.uncommented (· = '\n') s ≠ Text.uncommented (· = '\n') t := by
  have hsame : List.Forall₂ Declaration.SameButId [broken] [whole] :=
    .cons ⟨rfl, rfl, by decide⟩ .nil
  obtain ⟨p, hp⟩ := exists_compile_of_toBool (show (compileNodes .builtin {} [] [broken]).toBool by
    decide +kernel)
  obtain ⟨q, hq⟩ := exists_compile_of_toBool (show (compileNodes .builtin {} [] [whole]).toBool by
    decide +kernel)
  obtain ⟨front, back, rests, hlength, hs, ht⟩ := exists_commented (by decide) hsame hp hq
  refine ⟨hsame, p, q, _, _, hp, hq, hs, ht, fun heq => ?_⟩
  obtain ⟨rest, rfl⟩ := List.length_eq_one_iff.1 hlength
  have hbroken : Text.uncommented (· = '\n') broken.comment = [['b']] := by decide +kernel
  have hwhole : Text.uncommented (· = '\n') whole.comment = [] := by decide +kernel
  have hlengths := congrArg List.length heq
  have hunlines := @Text.uncommented_unlines (· = '\n') Text.lineEnds_feed.feed
  rw [hunlines, hunlines] at hlengths
  simp only [commented, List.zipWith_cons_cons, List.zipWith_nil_left, List.flatten_cons,
    List.flatten_nil, List.append_nil, List.flatMap_append, List.flatMap_cons, List.length_append,
    hbroken, hwhole, List.length_cons, List.length_nil] at hlengths
  omega

end Program

end Patchbay
