import Patchbay.Proofs.Code.Rendering
import Patchbay.Proofs.Code.Rows
import Patchbay.Proofs.Program.Outcome

/-!
Rendering of whole programs. With a proper prefix all raw texts of a program are put together from
ASCII, so that every program that is accepted has a text, which is written line by line; and the loop
body of a node is one line.
-/
namespace Patchbay

open Text
open Code (Prints unlines)

section Names

variable {cs : List Char}

theorem all_isNameChar_of_isIdentifier (h : isIdentifier cs) :
    cs.all fun c => isWordChar c || c = '_' := by
  simpa using isWordChar_or_of_isIdentifier h

/-- The codes of the characters of names. -/
theorem toNat_nameChar {c : Char} (h : isWordChar c || c = '_') : 48 ≤ c.toNat ∧ c.toNat ≤ 122 := by
  simp only [isWordChar, Char.isAlphanum, Char.isAlpha, Char.isUpper, Char.isLower, Char.isDigit,
    Bool.or_eq_true, Bool.and_eq_true, decide_eq_true_eq, UInt32.le_iff_toNat_le] at h
  rcases h with (((h | h) | h) | rfl)
  · exact ⟨le_trans (by decide) h.1, h.2.trans (by decide)⟩
  · exact ⟨le_trans (by decide) h.1, h.2.trans (by decide)⟩
  · exact ⟨h.1, h.2.trans (by decide)⟩
  · decide

theorem isBlank_nameChar {c : Char} (h : isWordChar c || c = '_') : isBlank c = false := by
  obtain ⟨hlow, hhigh⟩ := toNat_nameChar h
  simp only [isBlank, Bool.or_eq_false_iff, Bool.and_eq_false_iff, decide_eq_false_iff_not]
  omega

theorem ascii_of_nameChars (h : cs.all fun c => isWordChar c || c = '_') : Ascii cs := by
  intro c hc
  rw [Char.utf8Size_eq_one_iff, UInt32.le_iff_toNat_le]
  exact (toNat_nameChar (List.all_eq_true.1 h c hc)).2.trans (by decide)

end Names

section Ascii

variable {a b s sep : String} {cs : List Char} {ls more : List String}

theorem ascii_append (ha : Ascii a.toList) (hb : Ascii b.toList) : Ascii (a ++ b).toList := by
  rw [String.toList_append]
  exact ha.append hb

theorem ascii_toString (h : Ascii s.toList) : Ascii (toString s).toList := h

theorem ascii_number (n : ℕ) : Ascii (toString n).toList := by
  rw [Nat.toString_eq_repr, Nat.toList_repr]
  exact ascii_of_nameChars (Local.all_isNameChar_toDigits n)

/-- Literals are spelled out by `String.toList_ofList`, since evaluating them is slow. -/
theorem ascii_of_toList (hs : s.toList = cs) (h : cs.all (·.utf8Size = 1)) : Ascii s.toList := by
  rw [hs]
  simpa [Ascii] using h

/-- All lines are in ASCII. -/
def AsciiLines (ls : List String) : Prop := ∀ l ∈ ls, Ascii l.toList

theorem asciiLines_nil : AsciiLines [] := fun _ h => absurd h List.not_mem_nil

theorem asciiLines_cons (hs : Ascii s.toList) (h : AsciiLines ls) : AsciiLines (s :: ls) :=
  List.forall_mem_cons.2 ⟨hs, h⟩

theorem asciiLines_append (h : AsciiLines ls) (hmore : AsciiLines more) : AsciiLines (ls ++ more) :=
  fun l hl => (List.mem_append.1 hl).elim (h l) (hmore l)

theorem ascii_intercalate (hsep : Ascii sep.toList) (h : AsciiLines ls) :
    Ascii (sep.intercalate ls).toList := by
  rw [String.toList_intercalate]
  induction ls with
  | nil => exact fun c hc => absurd hc List.not_mem_nil
  | cons l ls ih =>
    obtain ⟨hl, hls⟩ := List.forall_mem_cons.1 h
    cases ls with
    | nil => simpa using hl
    | cons l' ls =>
      rw [List.map_cons, List.map_cons, List.intercalate_cons_cons]
      exact (hl.append hsep).append (ih hls)

end Ascii

/-- No raw text of the fragment goes beyond ASCII. -/
def Code.IsAscii (code : Code) : Prop := ∀ text ∈ code.rawTexts, Ascii text.toList

namespace Code

variable {code : Code} {items : List Code} {ls : List String}

theorem isAscii_raw {text : String} (h : Ascii text.toList) : (raw text).IsAscii :=
  List.forall_mem_singleton.2 h

theorem isAscii_ofLines (h : AsciiLines ls) : (ofLines ls).IsAscii :=
  isAscii_raw (ascii_intercalate (ascii_of_toList String.toList_ofList (by decide)) h)

theorem isAscii_block (h : ∀ item ∈ items, item.IsAscii) : (block items).IsAscii := by
  induction items with
  | nil => exact fun text ht => absurd ht List.not_mem_nil
  | cons item items ih =>
    obtain ⟨hitem, hitems⟩ := List.forall_mem_cons.1 h
    intro text ht
    exact (List.mem_append.1 ht).elim (hitem text) (ih hitems text)

end Code

theorem BitDepth.ascii_floatArray (depth : BitDepth) : Ascii depth.floatArray.toList := by
  cases depth <;> exact ascii_of_toList String.toList_ofList (by decide)

/-- The helper units are written in ASCII. -/
theorem Helper.Builtin.isAscii_body (b : Builtin) (settings : Settings) :
    (b.body settings).IsAscii := by
  apply Code.isAscii_ofLines
  have hfloatArray := settings.bitDepth.ascii_floatArray
  cases b with
  | bang | tokens | templates | noteToFrequency | frequencyToNote | arrays | engineConfigured =>
    simp only [lines, bangLines, tokenLines, templateLines, noteLines, frequencyLines, arrayLines,
      engineLines]
    repeat' with_reducible first
      | exact hfloatArray
      | apply asciiLines_cons
      | exact asciiLines_nil
      | apply ascii_append
      | exact ascii_of_toList String.toList_ofList (by decide)

/-- No raw text of the loop body or of a receiver goes beyond ASCII. -/
def Behaviour.IsAscii : Behaviour → Prop
  | .loop body => body.IsAscii
  | .receivers byInlet => ∀ r ∈ byInlet, r.2.IsAscii

section Node

variable {settings : Settings} {names : Names} {node : Node}

theorem ascii_own (h : Ascii names.space.toList) {w : String} (hw : Ascii w.toList) :
    Ascii (names.own w).toList :=
  ascii_append (ascii_append h (ascii_of_toList String.toList_ofList (by decide))) hw

theorem ascii_state (h : Ascii names.space.toList) {w full : String} {cs : List Char}
    (hfull : names.state w = .ok full) (hw : w.toList = cs) (hcs : cs.all (·.utf8Size = 1)) :
    Ascii full.toList :=
  (Names.state_eq_ok_iff.1 hfull).2 ▸ ascii_own h (ascii_of_toList hw hcs)

theorem isAscii_generate (h : Ascii names.space.toList) {generated : Behaviour}
    (hgenerated : node.generate names = .ok generated) : generated.IsAscii := by
  cases node
  case' message declared active =>
    obtain ⟨code, hcode, hgenerated⟩ := bind_eq_ok.1 hgenerated
    obtain ⟨templates, htemplates, hcode⟩ := bind_eq_ok.1 hcode
    cases hcode
    cases hgenerated
    replace htemplates := ascii_state h htemplates String.toList_ofList (by decide)
    refine List.forall_mem_singleton.2 (Code.isAscii_ofLines ?_)
  case' tableWrite declared cursor =>
    obtain ⟨byInlet, hby, hgenerated⟩ := bind_eq_ok.1 hgenerated
    obtain ⟨array, harray, hby⟩ := bind_eq_ok.1 hby
    obtain ⟨index, hindex, hby⟩ := bind_eq_ok.1 hby
    cases hby
    cases hgenerated
    replace harray := ascii_state h harray String.toList_ofList (by decide)
    replace hindex := ascii_state h hindex String.toList_ofList (by decide)
    refine List.forall_mem_cons.2 ⟨Code.isAscii_ofLines ?_,
      List.forall_mem_singleton.2 (Code.isAscii_ofLines ?_)⟩
  case' tableRead declared cursor =>
    obtain ⟨code, hcode, hgenerated⟩ := bind_eq_ok.1 hgenerated
    obtain ⟨array, harray, hcode⟩ := bind_eq_ok.1 hcode
    cases hcode
    cases hgenerated
    replace harray := ascii_state h harray String.toList_ofList (by decide)
    refine List.forall_mem_singleton.2 (Code.isAscii_ofLines ?_)
  case' sampleRate =>
    cases hgenerated
    refine List.forall_mem_singleton.2 (Code.isAscii_ofLines ?_)
  case' func f =>
    cases hgenerated
    apply Code.isAscii_raw
    cases f
  -- What is left are lines, put together from literals, names of the node and numbers.
  all_goals
    try simp only [Table.setArrayLines, Table.inRangeCode, Table.indexCode,
      SignalFunction.expression, Names.message, Names.sampleRate, Names.sender, Names.output,
      Names.input]
    repeat' with_reducible first
      | assumption
      | apply asciiLines_cons
      | exact asciiLines_nil
      | apply asciiLines_append
      | apply ascii_append
      | apply ascii_toString
      | apply ascii_own h
      | apply ascii_number
      | exact ascii_of_toList String.toList_ofList (by decide)

theorem ascii_indexCode {index : String} (h : Ascii index.toList) :
    Ascii (Table.indexCode index).toList :=
  ascii_append (ascii_append (ascii_of_toList String.toList_ofList (by decide)) h)
    (ascii_of_toList String.toList_ofList (by decide))

theorem isAscii_tableDeclarations (h : Ascii names.space.toList) {code : Code}
    (hcode : Table.declarations settings names = .ok code) : code.IsAscii := by
  have hfloatArray := settings.bitDepth.ascii_floatArray
  obtain ⟨array, harray, hcode⟩ := bind_eq_ok.1 hcode
  obtain ⟨arrayName, harrayName, hcode⟩ := bind_eq_ok.1 hcode
  obtain ⟨subscription, hsubscription, hcode⟩ := bind_eq_ok.1 hcode
  cases hcode
  replace harray := ascii_state h harray String.toList_ofList (by decide)
  replace harrayName := ascii_state h harrayName String.toList_ofList (by decide)
  replace hsubscription := ascii_state h hsubscription String.toList_ofList (by decide)
  refine Code.isAscii_block (List.forall_mem_cons.2
    ⟨Code.isAscii_ofLines ?_, List.forall_mem_singleton.2 (Code.isAscii_ofLines ?_)⟩)
  all_goals
    repeat' with_reducible first
      | assumption
      | apply asciiLines_cons
      | exact asciiLines_nil
      | apply ascii_append
      | apply ascii_toString
      | apply ascii_own h
      | exact ascii_of_toList String.toList_ofList (by decide)

theorem isAscii_declarations (h : Ascii names.space.toList) {code? : Option Code}
    (hcode : node.declarations settings names = .ok code?) : ∀ code ∈ code?, code.IsAscii := by
  cases node with
  | tableWrite declared cursor =>
    obtain ⟨base, hbase, hcode⟩ := bind_eq_ok.1 hcode
    obtain ⟨index, hindex, hcode⟩ := bind_eq_ok.1 hcode
    cases hcode
    replace hindex := ascii_state h hindex String.toList_ofList (by decide)
    rintro _ ⟨⟩
    refine Code.isAscii_block (List.forall_mem_cons.2 ⟨isAscii_tableDeclarations h hbase,
      List.forall_mem_singleton.2 (Code.isAscii_raw ?_)⟩)
    exact ascii_append
      (ascii_append hindex (ascii_of_toList String.toList_ofList (by decide)))
      (ascii_indexCode (ascii_of_toList String.toList_ofList (by decide)))
  | tableRead declared cursor =>
    obtain ⟨base, hbase, hcode⟩ := bind_eq_ok.1 hcode
    cases hcode
    rintro _ ⟨⟩
    exact isAscii_tableDeclarations h hbase
  | message | sampleRate | func =>
    cases hcode
    rintro _ ⟨⟩

/-- State variables are bound without raw texts. -/
theorem isAscii_declare {vars : List StateVariable} {code : Code}
    (hcode : StateVariable.declare settings names vars = .ok code) : code.IsAscii := by
  rw [declare_eq hcode]
  refine Code.isAscii_block (List.forall_mem_map.2 fun v _ => ?_)
  exact fun text ht => absurd ht List.not_mem_nil

end Node

theorem ascii_space {settings : Settings} {id : String} {declared : List String}
    (hproper : isIdentifier settings.variablePrefix.toList) :
    Ascii (Names.ofNode settings id declared).space.toList :=
  ascii_append
    (ascii_append (ascii_of_nameChars (all_isNameChar_of_isIdentifier hproper))
      (ascii_of_toList String.toList_ofList (by decide)))
    (ascii_of_nameChars (Names.all_isNameChar_sanitized id))

/-- No raw text of what a node contributes goes beyond ASCII. -/
structure Contribution.IsAscii (node : Contribution) : Prop where
  state : node.state.IsAscii
  declarations : ∀ code ∈ node.declarations, code.IsAscii
  generated : node.generated.IsAscii

theorem NewNode.isAscii_compile {settings : Settings} {id : String} {made : NewNode}
    {node : Contribution} (hproper : isIdentifier settings.variablePrefix.toList)
    (h : made.compile settings id = .ok node) : node.IsAscii := by
  obtain ⟨generated, state, declarations, hgenerated, hstate, hdeclarations, rfl⟩ :=
    parts_of_compile h
  constructor
  · exact isAscii_declare hstate
  · exact isAscii_declarations (ascii_space hproper) hdeclarations
  · exact isAscii_generate (ascii_space hproper) hgenerated

/-- Every receiver is a function. -/
def Behaviour.Receives : Behaviour → Prop
  | .loop _ => True
  | .receivers byInlet => ∀ r ∈ byInlet, ∃ ls, r.2 = .receiver ls

theorem Node.receives_generate {node : Node} {names : Names} {generated : Behaviour}
    (h : node.generate names = .ok generated) : generated.Receives := by
  cases node with
  | message declared active =>
    obtain ⟨code, hcode, h⟩ := bind_eq_ok.1 h
    obtain ⟨templates, -, hcode⟩ := bind_eq_ok.1 hcode
    cases hcode
    cases h
    exact List.forall_mem_singleton.2 ⟨_, rfl⟩
  | tableWrite declared cursor =>
    obtain ⟨byInlet, hby, h⟩ := bind_eq_ok.1 h
    obtain ⟨array, -, hby⟩ := bind_eq_ok.1 hby
    obtain ⟨index, -, hby⟩ := bind_eq_ok.1 hby
    cases hby
    cases h
    exact List.forall_mem_cons.2 ⟨⟨_, rfl⟩, List.forall_mem_singleton.2 ⟨_, rfl⟩⟩
  | tableRead declared cursor =>
    obtain ⟨code, hcode, h⟩ := bind_eq_ok.1 h
    obtain ⟨array, -, hcode⟩ := bind_eq_ok.1 hcode
    cases hcode
    cases h
    exact List.forall_mem_singleton.2 ⟨_, rfl⟩
  | sampleRate =>
    cases h
    exact List.forall_mem_singleton.2 ⟨_, rfl⟩
  | func f =>
    cases h
    trivial

theorem NewNode.receives_compile {settings : Settings} {id : String} {made : NewNode}
    {n : Contribution} (h : made.compile settings id = .ok n) : n.generated.Receives := by
  obtain ⟨generated, state, declarations, hgenerated, -, -, rfl⟩ := parts_of_compile h
  exact Node.receives_generate hgenerated

section Prints

theorem Code.exists_prints {code : Code} (h : code.IsAscii) : ∃ ls, Prints code.render ls := by
  obtain ⟨ls, hls⟩ := Code.exists_lines code h
  exact ⟨ls, Code.prints_of_lines hls⟩

/-- A receiver begins with its name. -/
theorem exists_prints_receiverText {byInlet : List (Nat × Code)}
    (hascii : ∀ r ∈ byInlet, r.2.IsAscii) (hreceives : ∀ r ∈ byInlet, ∃ ls, r.2 = .receiver ls)
    (inlet : Nat) (name : String) :
    ∃ ls, Prints (Contribution.receiverText byInlet inlet name) ls := by
  unfold Contribution.receiverText
  cases hlookup : byInlet.lookup inlet with
  | none => exact ⟨[], rfl⟩
  | some code =>
    obtain ⟨front, back, hby, -⟩ := List.lookup_eq_some_iff.1 hlookup
    have hmem : (inlet, code) ∈ byInlet := by
      rw [hby]
      simp
    obtain ⟨ls, rfl⟩ := hreceives _ hmem
    obtain ⟨inner, hinner⟩ := Code.exists_lines (.ofLines ls) (hascii _ hmem)
    have hlines : (Code.receiver ls).lines =
        .ok (Code.headLine none [Names.message] :: inner.map Code.indented ++ ["\x7d"]) := by
      rw [Code.receiver, Code.lines, hinner]
      rfl
    simp only [Code.prints_of_lines hlines]
    exact ⟨_, congrArg Except.ok (Code.append_unlines_cons _ _ _)⟩

theorem Contribution.exists_prints_receiversText {n : Contribution} (hascii : n.IsAscii)
    (hreceives : n.generated.Receives) : ∃ ls, Prints n.receiversText ls := by
  have hgenerated := hascii.generated
  unfold receiversText
  cases hg : n.generated with
  | loop body => exact ⟨[], rfl⟩
  | receivers byInlet =>
    rw [hg] at hgenerated hreceives
    obtain ⟨lss, hlss⟩ := exists_forall₂ fun (r : Nat × String) (_ : r ∈ n.receiverNames) =>
      exists_prints_receiverText hgenerated hreceives r.1 r.2
    obtain ⟨texts, htexts, hjoin⟩ := Code.exists_mapM_prints hlss
    exact ⟨lss.flatten, by simp only [htexts]; exact congrArg Except.ok hjoin⟩

/-- The comment in front of a node. -/
def commentLine (nodeType id : String) : String := s!"// [{nodeType}] {id}"

/-- A node is printed as its comment, its state and a rest that depends on neither. -/
theorem Contribution.exists_rest {n : Contribution} (hascii : n.IsAscii)
    (hreceives : n.generated.Receives) :
    ∃ rest, ∀ (id : String) (state : Code) (lines : List String), state.lines = .ok lines →
      Prints { n with id := id, state := state }.render
        (commentLine n.nodeType id :: lines ++ rest) := by
  obtain ⟨receivers, hreceivers⟩ := n.exists_prints_receiversText hascii hreceives
  obtain ⟨declarations, hnone, hsome⟩ : ∃ ls, (n.declarations = none → ls = []) ∧
      ∀ code ∈ n.declarations, Prints code.render ls := by
    cases hd : n.declarations with
    | none => exact ⟨[], by simp⟩
    | some code =>
      obtain ⟨ls, hls⟩ := Code.exists_prints (hascii.declarations code hd)
      exact ⟨ls, by simp [hls]⟩
  refine ⟨declarations ++ receivers, fun id state lines hlines => ?_⟩
  have htext : s!"// [{n.nodeType}] {id}\n" ++ unlines lines ++ unlines declarations ++
      unlines receivers =
        unlines (commentLine n.nodeType id :: lines ++ (declarations ++ receivers)) := by
    rw [List.cons_append, Code.unlines_cons, Code.unlines_append, Code.unlines_append,
      ← String.append_assoc, ← String.append_assoc]
    rfl
  rw [Prints, ← htext]
  refine bind_eq_ok.2 ⟨_, Code.prints_of_lines hlines, ?_⟩
  dsimp only
  cases hd : n.declarations with
  | none =>
    rw [hnone hd]
    exact bind_eq_ok.2 ⟨_, rfl, bind_eq_ok.2 ⟨_, hreceivers, rfl⟩⟩
  | some code => exact bind_eq_ok.2 ⟨_, hsome code hd, bind_eq_ok.2 ⟨_, hreceivers, rfl⟩⟩

theorem Contribution.exists_prints {n : Contribution} (hascii : n.IsAscii)
    (hreceives : n.generated.Receives) : ∃ ls, Prints n.render ls := by
  obtain ⟨rest, hrest⟩ := n.exists_rest hascii hreceives
  obtain ⟨lines, hlines⟩ := Code.exists_lines n.state hascii.state
  exact ⟨_, hrest n.id n.state lines hlines⟩

end Prints

theorem SignalFunction.newline_notMem_expression (f : SignalFunction) {input : String}
    (h : '\n' ∉ input.toList) : '\n' ∉ (f.expression input).toList := by
  cases f with
  | absolute | cosine | wrap | squareRoot | noteToFrequency | frequencyToNote =>
    simp [expression, ToString.toString, h]

theorem SignalFunction.last_expression (f : SignalFunction) (input : String) :
    ∃ c, (f.expression input).toList.getLast? = some c ∧ isBlank c = false := by
  cases f with
  | absolute | cosine | wrap | squareRoot | noteToFrequency | frequencyToNote =>
    simp [expression, ToString.toString, List.getLast?_cons]
    decide

/-- What a node does for each sample, if it does something. -/
def Node.loopLine? (names : Names) : Node → Option String
  | func f => some (names.output 0 ++ " = " ++ f.expression (names.input 0))
  | _ => none

section Loop

variable {settings : Settings} {id : String} {declared : List String} {node : Node}

theorem tidy_loopLine (hproper : isIdentifier settings.variablePrefix.toList) {line : String}
    (h : node.loopLine? (Names.ofNode settings id declared) = some line) : Tidy line.toList := by
  cases node with
  | message | tableWrite | tableRead | sampleRate => cases h
  | func f =>
    obtain rfl := Option.some.inj h
    generalize hnames : Names.ofNode settings id declared = names
    have hchars (j : JackName) :
        ∀ c ∈ (names.own (Local.jack j 0).text).toList, isWordChar c || c = '_' :=
      List.all_eq_true.1 (all_isNameChar_of_isIdentifier
        (hnames ▸ Names.isIdentifier_own hproper (.jack j 0)))
    have houtput : ∀ c ∈ (names.output 0).toList, isWordChar c || c = '_' := hchars .output
    have hinput : ∀ c ∈ (names.input 0).toList, isWordChar c || c = '_' := hchars .input
    rw [String.toList_append, String.toList_append]
    constructor
    · have hexpression := f.newline_notMem_expression
        fun hmem => absurd (hinput _ hmem) (by decide)
      simp only [List.mem_append, not_or]
      exact ⟨⟨fun hmem => absurd (houtput _ hmem) (by decide), by decide⟩, hexpression⟩
    · obtain ⟨c, rest, hc⟩ : ∃ c rest, (names.output 0).toList = c :: rest := by
        refine List.exists_cons_of_ne_nil fun hnil => ?_
        have hmem := names.underscore_mem_own (Local.jack .output 0).text
        exact List.not_mem_nil (hnil ▸ hmem : '_' ∈ [])
      rw [hc] at houtput ⊢
      exact ⟨c, _, rfl, isBlank_nameChar (houtput c List.mem_cons_self)⟩
    · obtain ⟨c, hc, hblank⟩ := f.last_expression (names.input 0)
      obtain ⟨front, hfront⟩ := List.getLast?_eq_some_iff.1 hc
      rw [hfront, ← List.append_assoc]
      exact ⟨_, c, rfl, hblank⟩

theorem NewNode.loopBody?_compile {made : NewNode} {n : Contribution}
    (h : made.compile settings id = .ok n) :
    ∃ declared, n.loopBody? =
      (made.node.loopLine? (Names.ofNode settings id declared)).map Code.raw := by
  obtain ⟨generated, state, declarations, hgenerated, -, -, rfl⟩ := parts_of_compile h
  refine ⟨made.node.stateVariables.map (·.name), ?_⟩
  rw [Contribution.loopBody?]
  cases hnode : made.node with
  | func f =>
    rw [hnode] at hgenerated
    cases hgenerated
    rfl
  | message | tableWrite | tableRead =>
    rw [hnode] at hgenerated
    obtain ⟨receivers, -, hgenerated⟩ := bind_eq_ok.1 hgenerated
    cases hgenerated
    rfl
  | sampleRate =>
    rw [hnode] at hgenerated
    cases hgenerated
    rfl

end Loop

namespace Program

variable {registry : Registry} {settings : Settings} {ds : List Declaration}
  {nodes : List (Contribution × List Helper.Builtin)}

theorem exists_prints_of_makes (hproper : isIdentifier settings.variablePrefix.toList)
    (h : List.Forall₂ (Declaration.Makes registry settings) ds nodes) :
    ∀ n ∈ nodes, ∃ ls, Prints n.1.render ls := by
  induction h with
  | nil => exact fun n hn => absurd hn List.not_mem_nil
  | cons hn _ ih =>
    obtain ⟨made, -, hcompile, -⟩ := hn
    have hprints := Contribution.exists_prints (NewNode.isAscii_compile hproper hcompile)
      (NewNode.receives_compile hcompile)
    exact List.forall_mem_cons.2 ⟨hprints, ih⟩

/-- Each loop body of a program is one line. -/
theorem exists_loopLines (hproper : isIdentifier settings.variablePrefix.toList)
    (h : List.Forall₂ (Declaration.Makes registry settings) ds nodes) :
    ∃ ls : List String, (∀ l ∈ ls, Tidy l.toList) ∧
      (nodes.map (·.1)).filterMap (·.loopBody?) = ls.map Code.raw := by
  induction h with
  | nil => exact ⟨[], fun l hl => absurd hl List.not_mem_nil, rfl⟩
  | cons hn _ ih =>
    obtain ⟨ls, htidy, hls⟩ := ih
    obtain ⟨made, -, hcompile, -⟩ := hn
    obtain ⟨declared, hbody⟩ := NewNode.loopBody?_compile hcompile
    cases hline : made.node.loopLine? (Names.ofNode settings _ declared) with
    | none =>
      rw [hline] at hbody
      exact ⟨ls, htidy, by rw [List.map_cons, List.filterMap_cons_none hbody, hls]⟩
    | some line =>
      rw [hline] at hbody
      refine ⟨line :: ls, List.forall_mem_cons.2 ⟨tidy_loopLine hproper hline, htidy⟩, ?_⟩
      rw [List.map_cons, List.filterMap_cons_some hbody, hls, List.map_cons]

/-- The text of the loop with the given lines. -/
def loopText (ls : List String) : String :=
  Code.unlines ("function loop() \x7b" :: ls.map Code.indented ++ ["\x7d"])

theorem render_loop {ls : List String} (h : ∀ l ∈ ls, Tidy l.toList) :
    (Code.function (some "loop") [] (.block (ls.map .raw))).render = .ok (loopText ls) := by
  rw [Code.render, Code.lines, Code.lines, Code.linesOfAll_raw h]
  rfl

/-- A helper unit is printed as its name in a comment and its lines. -/
theorem prints_helper (settings : Settings) (b : Helper.Builtin) :
    ∃ ls, Prints (b.render settings) ls := by
  obtain ⟨ls, hls⟩ := Code.exists_prints (b.isAscii_body settings)
  refine ⟨s!"// {b.name}" :: ls, ?_⟩
  rw [Prints, Helper.Builtin.render, hls, Code.unlines_cons]
  rfl

/-- With a proper prefix a program that is accepted has a text, which ends with the loop bodies in
the order of the nodes. -/
theorem exists_render (hproper : isIdentifier settings.variablePrefix.toList) {p : Program}
    (hp : compile registry settings ds = .ok p) :
    ∃ (ls : List String) (front : String), p.nodes.filterMap (·.loopBody?) = ls.map Code.raw ∧
      p.render = .ok (front ++ loopText ls) := by
  obtain ⟨hsettings, nodes, hnodes, hpnodes⟩ := compile_eq_ok hp
  obtain ⟨hmakes, -⟩ := compileNodes_eq_ok_iff.1 hnodes
  obtain ⟨ls, htidy, hls⟩ := exists_loopLines hproper hmakes
  have hhelper : ∀ b ∈ p.helpers, ∃ text, b.render p.settings = .ok text := by
    intro b _
    obtain ⟨lines, hlines⟩ := prints_helper p.settings b
    exact ⟨_, hlines⟩
  have hnode : ∀ n ∈ p.nodes, ∃ text, n.render = .ok text := by
    rw [hpnodes]
    refine List.forall_mem_map.2 fun n hn => ?_
    obtain ⟨lines, hlines⟩ := exists_prints_of_makes hproper hmakes n hn
    exact ⟨_, hlines⟩
  obtain ⟨helpers, hhelpers⟩ := exists_mapM_eq_ok hhelper
  obtain ⟨texts, htexts⟩ := exists_mapM_eq_ok hnode
  rw [hpnodes] at htexts ⊢
  refine ⟨ls, String.join helpers ++ String.join texts, hls, ?_⟩
  rw [render, hhelpers, hpnodes, htexts, hls, render_loop htidy]
  rfl

end Program

end Patchbay
