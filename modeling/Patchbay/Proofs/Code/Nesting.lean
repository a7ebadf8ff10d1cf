import Mathlib
import Patchbay.Proofs.Code.Rows
import Patchbay.Proofs.Text.Margin

/-!
Rendering at any depth. The text of a fragment inside of functions is its own text moved to the
right, and a fragment can be replaced by a raw text that is its own text: raw texts lose only what
their lines share, and the text of a fragment has nothing to lose.
-/
namespace Patchbay

open Text (Trimmed Settled settled_singleton)

namespace Code

mutual

/-- The names and the values in a fragment. -/
def words : Code → List String
  | raw _ => []
  | block items => wordsOfAll items
  | binding name init => name :: init.toList
  | function name params body => name.toList ++ params ++ words body

def wordsOfAll : List Code → List String
  | [] => []
  | item :: items => words item ++ wordsOfAll items

end

/-- All names and values hold something, on one line, without white space at the end. -/
def Neat (code : Code) : Prop := ∀ word ∈ code.words, Trimmed word.toList

instance (code : Code) : Decidable code.Neat :=
  inferInstanceAs (Decidable (∀ word ∈ code.words, Trimmed word.toList))

def spaces (n : ℕ) : String := String.ofList (List.replicate n ' ')

/-- A name, if there is one, and the parameters of a function. -/
abbrev Head := Option String × List String

/-- The fragment inside of functions, the first of them outermost. -/
def nested (heads : List Head) (code : Code) : Code :=
  heads.foldr (fun head body => function head.1 head.2 body) code

/-- The lines in front of what stands in nested functions. -/
def openings (heads : List Head) : List String :=
  heads.mapIdx fun i head => spaces (4 * i) ++ headLine head.1 head.2

/-- The lines behind what stands in `n` nested functions. -/
def closings (n : ℕ) : List String :=
  (List.range n).reverse.map fun i => spaces (4 * i) ++ "\x7d"

/-- A fragment with a gap. -/
inductive Surroundings where
  | gap
  | block (before : List Code) (inner : Surroundings) (behind : List Code)
  | function (name : Option String) (params : List String) (inner : Surroundings)

def Surroundings.fill : Surroundings → Code → Code
  | gap, code => code
  | block before inner behind, code => .block (before ++ inner.fill code :: behind)
  | function name params inner, code => .function name params (inner.fill code)

end Code

/-- Characters of a text with `n` spaces in front of each line. -/
def Text.shiftedChars (n : ℕ) : (atStart : Bool) → List Char → List Char
  | _, [] => []
  | atStart, c :: cs =>
    (if atStart then List.replicate n ' ' else []) ++ c :: shiftedChars n (c = '\n') cs

/-- The text with `n` spaces in front of each line. -/
def Text.shifted (n : ℕ) (text : String) : String :=
  String.ofList (shiftedChars n true text.toList)

namespace Code

section Lines

variable {s : String} {ls : List String} {n : ℕ}

theorem toList_unlines (ls : List String) :
    (unlines ls).toList = (ls.map String.toList).flatMap (· ++ ['\n']) := by
  induction ls with
  | nil => rfl
  | cons l ls ih => simp [unlines_cons, ih]

theorem toList_spaces (n : ℕ) : (spaces n).toList = List.replicate n ' ' := String.toList_ofList

theorem shiftedChars_line {line : List Char} (h : '\n' ∉ line) (atStart : Bool) (rest : List Char) :
    Text.shiftedChars n atStart (line ++ '\n' :: rest) =
      (if atStart then List.replicate n ' ' else []) ++ line ++
        '\n' :: Text.shiftedChars n true rest := by
  induction line generalizing atStart with
  | nil => simp [Text.shiftedChars]
  | cons c line ih =>
    rw [List.mem_cons, not_or] at h
    have hc : c ≠ '\n' := fun hc => h.1 hc.symm
    rw [List.cons_append, Text.shiftedChars, ih h.2]
    simp [hc]

theorem shifted_unlines (h : ∀ l ∈ ls, '\n' ∉ l.toList) :
    Text.shifted n (unlines ls) = unlines (ls.map (spaces n ++ ·)) := by
  apply String.toList_inj.1
  rw [Text.shifted, String.toList_ofList, toList_unlines, toList_unlines]
  induction ls with
  | nil => rfl
  | cons l ls ih =>
    obtain ⟨hl, hls⟩ := List.forall_mem_cons.1 h
    simp only [List.map_cons, List.flatMap_cons, List.append_assoc, List.singleton_append,
      String.toList_append, toList_spaces, shiftedChars_line hl, ih hls, if_true]

/-- Settled lines are rendered as they are. -/
theorem lines_raw_unlines (h : Settled (ls.map String.toList)) :
    (raw (unlines ls)).lines = .ok ls := by
  rw [lines, rawLines, toList_unlines, h.dedent_eq]
  simp

/-- The lines of a raw text, as they come from its rows. -/
theorem dedent_of_rawLines {text : String} (h : rawLines text = .ok ls) :
    Text.dedent text.toList = some (ls.map String.toList) := by
  unfold rawLines at h
  split at h
  · next outs houts =>
    cases h
    rw [houts]
    simp
  · cases h

end Lines

section Settled

variable {s : String} {ls ms : List String} {name : String} {params : List String}

theorem newline_notMem_intercalate (h : ∀ p ∈ params, '\n' ∉ p.toList) :
    '\n' ∉ (", ".intercalate params).toList := by
  induction params with
  | nil => decide
  | cons p params ih =>
    obtain ⟨hp, hparams⟩ := List.forall_mem_cons.1 h
    cases params with
    | nil => simpa using hp
    | cons p' params =>
      have hcomma : '\n' ∉ ", ".toList := by decide
      rw [String.intercalate_cons_cons, String.toList_append, String.toList_append,
        List.mem_append, List.mem_append, not_or, not_or]
      exact ⟨⟨hp, hcomma⟩, ih hparams⟩

theorem settled_bindingLine {init : Option String} (hname : Trimmed name.toList)
    (hinit : ∀ value ∈ init, Trimmed value.toList) :
    Settled [(bindingLine name init).toList] := by
  have hlet : '\n' ∉ "let ".toList := by decide
  cases init with
  | none =>
    have htext : (bindingLine name none).toList = "let ".toList ++ name.toList :=
      String.toList_append
    rw [htext]
    exact settled_singleton (hname.prepend hlet) rfl
  | some value =>
    have hequals : '\n' ∉ " = ".toList := by decide
    have htext : (bindingLine name (some value)).toList =
        "let ".toList ++ (name.toList ++ (" = ".toList ++ value.toList)) := by
      simp only [bindingLine, String.toList_append, List.append_assoc]
      rfl
    have hvalue : Trimmed value.toList := hinit value rfl
    rw [htext]
    exact settled_singleton (((hvalue.prepend hequals).prepend hname.newline).prepend hlet) rfl

theorem settled_headLine {name : Option String} (hname : ∀ n ∈ name, Trimmed n.toList)
    (hparams : ∀ p ∈ params, Trimmed p.toList) :
    Settled [(headLine name params).toList] := by
  have hlist : '\n' ∉ (", ".intercalate params).toList :=
    newline_notMem_intercalate fun p hp => (hparams p hp).newline
  have hopen : '\n' ∉ "(".toList := by decide
  cases name with
  | none =>
    have hclose : Trimmed ") => \x7b".toList :=
      ⟨by decide, [')', ' ', '=', '>', ' '], '\x7b', rfl, rfl⟩
    have htext : (headLine none params).toList =
        "(".toList ++ ((", ".intercalate params).toList ++ ") => \x7b".toList) := by
      simp only [headLine, String.toList_append, List.append_assoc]
      rfl
    rw [htext]
    exact settled_singleton ((hclose.prepend hlist).prepend hopen) rfl
  | some name =>
    have hclose : Trimmed ") \x7b".toList := ⟨by decide, [')', ' '], '\x7b', rfl, rfl⟩
    have hfunction : '\n' ∉ "function ".toList := by decide
    have htext : (headLine (some name) params).toList = "function ".toList ++ (name.toList ++
        ("(".toList ++ ((", ".intercalate params).toList ++ ") \x7b".toList))) := by
      simp only [headLine, String.toList_append, List.append_assoc]
      rfl
    have hrest := ((hclose.prepend hlist).prepend hopen).prepend (hname name rfl).newline
    rw [htext]
    exact settled_singleton (hrest.prepend hfunction) rfl

theorem trimmed_indented (h : Trimmed s.toList) : Trimmed (indented s).toList := by
  have hmargin : '\n' ∉ "    ".toList := by decide
  rw [indented, String.toList_append]
  exact h.prepend hmargin

mutual

/-- The lines of a fragment have nothing to lose. -/
theorem settled_lines : (code : Code) → {ls : List String} → code.Neat → code.lines = .ok ls →
    Settled (ls.map String.toList)
  | raw text, ls, _, h => Text.settled_of_dedent (dedent_of_rawLines h)
  | block items, ls, hneat, h => settled_linesOfAll items hneat h
  | binding name init, ls, hneat, h => by
    cases h
    obtain ⟨hname, hinit⟩ := List.forall_mem_cons.1 hneat
    exact settled_bindingLine hname fun value hvalue => hinit value (Option.mem_toList.2 hvalue)
  | function name params body, ls, hneat, h => by
    obtain ⟨inner, hinner, h⟩ := bind_eq_ok.1 h
    cases h
    obtain ⟨hwords, hbody⟩ := List.forall_mem_append.1 hneat
    obtain ⟨hname, hparams⟩ := List.forall_mem_append.1 hwords
    have hhead := settled_headLine (fun n hn => hname n (Option.mem_toList.2 hn)) hparams
    have hinside := settled_lines body hbody hinner
    show Settled ([(headLine name params).toList] ++
      (inner.map indented ++ ["\x7d"]).map String.toList)
    refine hhead.append_of_ne_nil (List.cons_ne_nil _ _) fun line hline => ?_
    rw [List.map_append, List.mem_append] at hline
    rcases hline with hline | hline
    · simp only [List.map_map, List.mem_map, Function.comp_apply] at hline
      obtain ⟨l, hl, rfl⟩ := hline
      exact trimmed_indented (hinside.trimmed _ (List.mem_map_of_mem hl))
    · obtain rfl := List.mem_singleton.1 hline
      exact ⟨by decide, [], '\x7d', rfl, rfl⟩

theorem settled_linesOfAll : (items : List Code) → {ls : List String} →
    (∀ word ∈ wordsOfAll items, Trimmed word.toList) → linesOfAll items = .ok ls →
    Settled (ls.map String.toList)
  | [], ls, _, h => by
    cases h
    exact Text.settled_nil
  | item :: items, ls, hneat, h => by
    obtain ⟨first, hfirst, h⟩ := bind_eq_ok.1 h
    obtain ⟨others, hothers, h⟩ := bind_eq_ok.1 h
    cases h
    obtain ⟨hitem, hitems⟩ := List.forall_mem_append.1 hneat
    rw [List.map_append]
    exact (settled_lines item hitem hfirst).append (settled_linesOfAll items hitems hothers)

end

end Settled

section Nested

variable {code : Code} {text : String} {ls : List String} {heads : List Head} {n : ℕ}

theorem spaces_zero (s : String) : spaces 0 ++ s = s := String.empty_append

theorem indented_spaces (n : ℕ) (s : String) : indented (spaces n ++ s) = spaces (n + 4) ++ s := by
  have hfour : "    ".toList = List.replicate 4 ' ' := rfl
  apply String.toList_inj.1
  rw [indented, String.toList_append, String.toList_append, String.toList_append, toList_spaces,
    toList_spaces, hfour, ← List.append_assoc, List.replicate_append_replicate, Nat.add_comm]

theorem openings_cons (head : Head) (heads : List Head) :
    openings (head :: heads) = headLine head.1 head.2 :: (openings heads).map indented := by
  rw [openings, List.mapIdx_cons, Nat.mul_zero, spaces_zero]
  congr 1
  apply List.ext_getElem?
  intro i
  simp only [openings, List.getElem?_map, List.getElem?_mapIdx, Option.map_map, Function.comp_def,
    indented_spaces, Nat.mul_succ]

theorem closings_succ (n : ℕ) : closings (n + 1) = (closings n).map indented ++ ["\x7d"] := by
  rw [closings, List.range_succ_eq_map, List.reverse_cons, List.map_append, ← List.map_reverse,
    closings, List.map_map, List.map_map, List.map_singleton, Nat.mul_zero, spaces_zero]
  simp only [Function.comp_def, indented_spaces, Nat.mul_succ]

/-- Nested functions move the lines of what stands in them by four spaces each. -/
theorem lines_nested (h : code.lines = .ok ls) (heads : List Head) :
    (nested heads code).lines = .ok (openings heads ++ ls.map (spaces (4 * heads.length) ++ ·) ++
      closings heads.length) := by
  induction heads with
  | nil =>
    have hstay : ls.map (spaces 0 ++ ·) = ls := by simp only [spaces_zero, List.map_id']
    simp only [nested, List.foldr_nil, h, openings, List.mapIdx_nil, List.length_nil, Nat.mul_zero,
      hstay, closings, List.range_zero, List.reverse_nil, List.map_nil, List.nil_append,
      List.append_nil]
  | cons head heads ih =>
    have hinside : nested (head :: heads) code = function head.1 head.2 (nested heads code) := rfl
    rw [hinside, lines, ih, List.length_cons, openings_cons, closings_succ]
    simp only [bind, Except.bind, pure, Except.pure, List.map_append, List.map_map,
      Function.comp_def, indented_spaces, Nat.mul_succ, List.cons_append, List.append_assoc]

theorem linesOfAll_congr {code code' : Code} (h : code.lines = code'.lines)
    (before behind : List Code) :
    linesOfAll (before ++ code :: behind) = linesOfAll (before ++ code' :: behind) := by
  induction before with
  | nil => rw [List.nil_append, List.nil_append, linesOfAll, linesOfAll, h]
  | cons item before ih => rw [List.cons_append, List.cons_append, linesOfAll, linesOfAll, ih]

/-- Of what fills a gap only the lines count. -/
theorem Surroundings.lines_fill {code code' : Code} (h : code.lines = code'.lines)
    (s : Surroundings) : (s.fill code).lines = (s.fill code').lines := by
  induction s with
  | gap => exact h
  | block before inner behind ih =>
    rw [fill, fill, lines, lines]
    exact linesOfAll_congr ih before behind
  | function name params inner ih => rw [fill, fill, lines, lines, ih]

theorem render_eq_ok_iff :
    code.render = .ok text ↔ ∃ ls, code.lines = .ok ls ∧ text = unlines ls := by
  rw [render]
  cases code.lines with
  | error fault => simp [Except.map]
  | ok ls => simp [Except.map, eq_comm]

/-- The text of a fragment is a raw text with the same lines. -/
theorem lines_raw_of_render (hneat : code.Neat) (h : code.render = .ok text) :
    (raw text).lines = code.lines := by
  obtain ⟨ls, hls, rfl⟩ := render_eq_ok_iff.1 h
  rw [lines_raw_unlines (settled_lines code hneat hls), hls]

theorem neat_raw (source : String) : (raw source).Neat := fun _ h => absurd h List.not_mem_nil

/-- A raw text keeps the rows that hold something, in their order, and their places relative to each
other: all of them lose a margin of the same size. -/
theorem rows_of_render_raw {source : String} (h : (raw source).render = .ok text) :
    ∃ n ls, text = unlines ls ∧ List.Forall₂
      (fun row line => Text.Cut n row line ∧ Text.indentation row = n + Text.indentation line)
      (Text.filledRows source.toList) (ls.map String.toList) := by
  obtain ⟨ls, hls, rfl⟩ := render_eq_ok_iff.1 h
  have hcut := Text.filledRows_cut (dedent_of_rawLines hls)
  exact ⟨_, ls, rfl, hcut.imp fun row line hrow => ⟨hrow, hrow.indentation_eq⟩⟩

end Nested

/-- The text of a fragment does not depend on where it stands. Inside of functions it is moved to
the right by four spaces for each; and it can take the place of the fragment as a raw text, wherever
that stands. So the text of a raw text is its own text, and of the rows that hold something it keeps
the order and the relative indentation. -/
theorem render_composes {code : Code} {text : String} (hneat : code.Neat)
    (h : code.render = .ok text) :
    (∀ heads : List Head, (nested heads code).render =
      .ok (unlines (openings heads) ++ Text.shifted (4 * heads.length) text ++
        unlines (closings heads.length))) ∧
    (∀ s : Surroundings, (s.fill (raw text)).render = (s.fill code).render) ∧
    ∀ source own, (raw source).render = .ok own → (raw own).render = .ok own ∧
      ∃ n ls, own = unlines ls ∧ List.Forall₂
        (fun row line => Text.Cut n row line ∧ Text.indentation row = n + Text.indentation line)
        (Text.filledRows source.toList) (ls.map String.toList) := by
  refine ⟨fun heads => ?_, fun s => ?_, fun source own hown => ⟨?_, rows_of_render_raw hown⟩⟩
  · obtain ⟨ls, hls, rfl⟩ := render_eq_ok_iff.1 h
    have hrows : ∀ l ∈ ls, '\n' ∉ l.toList := fun l hl =>
      ((settled_lines code hneat hls).trimmed _ (List.mem_map_of_mem hl)).newline
    rw [shifted_unlines hrows, ← unlines_append, ← unlines_append]
    exact prints_of_lines (lines_nested hls heads)
  · rw [render, render, s.lines_fill (lines_raw_of_render hneat h)]
  · rw [← hown, render, render, lines_raw_of_render (neat_raw source) hown]

/-- A variable and a function whose body stands further right than it needs to. -/
def adder : Code := block [binding "sum" (some "0"),
  function (some "add") ["x"] (raw "\n      sum =\n        sum + x  \n\n")]

def adderText : String :=
  "let sum = 0\nfunction add(x) \x7b\n    sum =\n      sum + x\n\x7d\n"

theorem render_composes_adder : adder.Neat ∧ adder.render = .ok adderText ∧
    (nested [(some "setup", []), (none, ["m"])] adder).render =
      .ok (unlines (openings [(some "setup", []), (none, ["m"])]) ++ Text.shifted 8 adderText ++
        unlines (closings 2)) ∧
    (raw adderText).render = .ok adderText := by
  have hneat : adder.Neat := by decide
  have hrender : adder.render = .ok adderText := by cbv
  obtain ⟨hnested, hfill, -⟩ := render_composes hneat hrender
  exact ⟨hneat, hrender, hnested [(some "setup", []), (none, ["m"])],
    (hfill .gap).trans hrender⟩

end Code

end Patchbay
