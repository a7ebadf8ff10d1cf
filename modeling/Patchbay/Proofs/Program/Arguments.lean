import Patchbay.Proofs.Program.Frame

/-!
Arguments in programs. They only stand in the bindings of templates and of array names, as literals
that stay on one line. So nothing that an argument holds can add a line or end one, and every
program has a text.
-/
namespace Patchbay

open Code (unlines)

/-- The state variables that are bound to arguments. -/
def Word.OfArguments (w : Word) : Prop := w = .templates ∨ w = .arrayName

/-- What the binding of something of a node begins with. -/
def Names.bindingHead (names : Names) (w : Word) : List Char :=
  (s!"let {names.own w.text} = ").toList

/-- Two lines that bind the same state variable of a node, each without a break. -/
def BoundAlike (names : Names) (l m : String) : Prop :=
  ∃ w : Word, w.OfArguments ∧ (OneLine l ∧ names.bindingHead w <+: l.toList) ∧
    OneLine m ∧ names.bindingHead w <+: m.toList

section Binding

variable {settings : Settings} {names : Names} {node node' : Node} {w : Word} {init : String}

theorem oneLine_own (hproper : Text.isIdentifier settings.variablePrefix.toList) (d : Declaration) :
    OneLine ((d.names settings).own w.text) := by
  refine List.all_eq_true.2 fun c hc => ?_
  have hidentifier : Text.isIdentifier ((d.names settings).own w.text).toList :=
    Names.isIdentifier_own hproper (.word w)
  have hchar := List.all_eq_true.1 (all_isNameChar_of_isIdentifier hidentifier) c hc
  obtain ⟨hlow, hhigh⟩ := toNat_nameChar hchar
  exact isInline_of_ascii (by omega) (by omega)

theorem oneLine_binding {name : String} (hname : OneLine name) (hinit : OneLine init) :
    OneLine (Code.bindingLine name (some init)) := by
  have hlet : OneLine "let " := rfl
  have hequals : OneLine " = " := rfl
  exact ((hlet.append hname).append hequals).append hinit

theorem bindingHead_prefix (names : Names) (w : Word) (init : String) :
    names.bindingHead w <+: (Code.bindingLine (names.own w.text) (some init)).toList := by
  refine ⟨init.toList, ?_⟩
  rw [Names.bindingHead, ← String.toList_append]
  rfl

theorem boundAlike_binding (hw : w.OfArguments) (hname : OneLine (names.own w.text))
    {init' : String} (hinit : OneLine init) (hinit' : OneLine init') :
    BoundAlike names (Code.bindingLine (names.own w.text) (some init))
      (Code.bindingLine (names.own w.text) (some init')) :=
  ⟨w, hw, ⟨oneLine_binding hname hinit, bindingHead_prefix names w init⟩,
    oneLine_binding hname hinit', bindingHead_prefix names w init'⟩

/-- Nodes of one kind bind the same variables, and most of them to the same. -/
theorem stateLines_alike (h : node.kind = node'.kind)
    (hname : ∀ w : Word, OneLine (names.own w.text)) :
    List.Forall₂ (fun l m => l = m ∨ BoundAlike names l m) (node.stateLines settings names)
      (node'.stateLines settings names) := by
  have htable (declared declared' : String) :
      List.Forall₂ (fun l m => l = m ∨ BoundAlike names l m)
        ((Table.stateVariables declared).map fun v =>
          Code.bindingLine (names.own v.name) (some (v.init.render settings)))
        ((Table.stateVariables declared').map fun v =>
          Code.bindingLine (names.own v.name) (some (v.init.render settings))) := by
    have harrayName := boundAlike_binding (.inr rfl) (hname .arrayName) (oneLine_quoted declared)
      (oneLine_quoted declared')
    exact .cons (.inl rfl) (.cons (.inr harrayName) (.cons (.inl rfl) .nil))
  cases node <;> cases node' <;> cases h
  case message declared active declared' active' =>
    have htemplates := boundAlike_binding (.inl rfl) (hname .templates) declared.oneLine_literal
      declared'.oneLine_literal
    exact .cons (.inr htemplates) .nil
  case tableWrite declared cursor declared' cursor' =>
    exact List.rel_append (htable declared declared') (.cons (.inl rfl) .nil)
  case tableRead declared cursor declared' cursor' =>
    exact htable declared declared'
  case sampleRate => exact .nil
  case func f => exact .nil

end Binding

/-- The same but for arguments. -/
def Declaration.SameButArguments (d e : Declaration) : Prop :=
  d.id = e.id ∧ d.nodeType = e.nodeType

section Lines

variable {registry : Registry} {settings : Settings} {d e : Declaration} {ds es : List Declaration}

/-- Two lines that are the same, or that bind the same state variable of a declared node. -/
def SameLine (settings : Settings) (ds : List Declaration) (l m : String) : Prop :=
  l = m ∨ ∃ d ∈ ds, BoundAlike (d.names settings) l m

theorem SameLine.mono {more : List Declaration} {l m : String} (h : SameLine settings ds l m)
    (hsub : ds ⊆ more) : SameLine settings more l m :=
  h.imp_right fun ⟨d, hd, hbound⟩ => ⟨d, hsub hd, hbound⟩

theorem sameLine_head (hproper : Text.isIdentifier settings.variablePrefix.toList)
    (h : d.SameButArguments e) (hd : ∃ made, registry.build d.nodeType d.args = .ok made)
    (he : ∃ made, registry.build e.nodeType e.args = .ok made) :
    List.Forall₂ (SameLine settings [d]) (d.head registry settings) (e.head registry settings) := by
  obtain ⟨made, hmade⟩ := hd
  obtain ⟨made', hmade'⟩ := he
  obtain ⟨hid, htype⟩ := h
  obtain ⟨kind, hkind, hnode, -⟩ := Registry.build_eq_ok hmade
  obtain ⟨kind', hkind', hnode', -⟩ := Registry.build_eq_ok hmade'
  rw [← htype, hkind] at hkind'
  have hsame : made.node.kind = made'.node.kind := by
    rw [hnode, hnode', Option.some.inj hkind']
  have hnames : e.names settings = d.names settings := by
    rw [Declaration.names, Declaration.names, hid]
  rw [Declaration.head, Declaration.head, hmade, hmade', hnames]
  refine .cons (.inl ?_) ?_
  · rw [Declaration.comment, Declaration.comment, hid, htype]
  · refine (stateLines_alike hsame fun w => oneLine_own hproper d).imp fun l m hl => ?_
    exact hl.imp_right fun hbound => ⟨d, List.mem_singleton_self d, hbound⟩

theorem sameLine_layout (hproper : Text.isIdentifier settings.variablePrefix.toList)
    (h : List.Forall₂ Declaration.SameButArguments ds es)
    (hds : ∀ d ∈ ds, ∃ made, registry.build d.nodeType d.args = .ok made)
    (hes : ∀ e ∈ es, ∃ made, registry.build e.nodeType e.args = .ok made)
    (rests : List (List String)) :
    List.Forall₂ (SameLine settings ds) (Program.layout registry settings ds rests)
      (Program.layout registry settings es rests) := by
  induction h generalizing rests with
  | nil => exact .nil
  | @cons d e ds es hd _ ih =>
    cases rests with
    | nil => exact .nil
    | cons rest rests =>
      obtain ⟨hbuilt, hds⟩ := List.forall_mem_cons.1 hds
      obtain ⟨hbuilt', hes⟩ := List.forall_mem_cons.1 hes
      have hhead : List.Forall₂ (SameLine settings (d :: ds)) (d.head registry settings)
          (e.head registry settings) :=
        (sameLine_head hproper hd hbuilt hbuilt').imp fun l m hl => hl.mono (by simp)
      have hrest : List.Forall₂ (SameLine settings (d :: ds)) rest rest :=
        List.forall₂_same.2 fun l _ => .inl rfl
      have hlayout := (ih hds hes rests).imp fun l m hl =>
        hl.mono (List.subset_cons_self d ds)
      exact List.rel_append (List.rel_append hhead hrest) hlayout

end Lines

section Rows

variable {ends : Char → Bool} {settings : Settings} {ds : List Declaration} {l m : String}
  {ls ms : List String}

/-- Two rows that are the same, or that bind the same state variable of a declared node. -/
def SameRow (settings : Settings) (ds : List Declaration) (l m : List Char) : Prop :=
  l = m ∨ ∃ d ∈ ds, ∃ w : Word, w.OfArguments ∧
    (d.names settings).bindingHead w <+: l ∧ (d.names settings).bindingHead w <+: m

theorem SameLine.rows (h : SameLine settings ds l m) (hends : Text.LineEnds ends) :
    List.Forall₂ (SameRow settings ds) (Text.rows ends l) (Text.rows ends m) := by
  rcases h with rfl | ⟨d, hd, w, hw, ⟨hl, hhead⟩, hm, hhead'⟩
  · exact List.forall₂_same.2 fun _ _ => .inl rfl
  · rw [Text.rows_of_forall (hl.not_ends hends), Text.rows_of_forall (hm.not_ends hends)]
    exact .cons (.inr ⟨d, hd, w, hw, hhead, hhead'⟩) .nil

theorem SameLine.filter_ends (h : SameLine settings ds l m) (hends : Text.LineEnds ends) :
    l.toList.filter ends = m.toList.filter ends := by
  rcases h with rfl | ⟨d, hd, w, hw, ⟨hl, -⟩, hm, -⟩
  · rfl
  · have hnone {text : String} (h : OneLine text) : text.toList.filter ends = [] :=
      List.filter_eq_nil_iff.2 fun c hc => by simp [h.not_ends hends c hc]
    rw [hnone hl, hnone hm]

theorem sameRow_unlines (h : List.Forall₂ (SameLine settings ds) ls ms)
    (hends : Text.LineEnds ends) : List.Forall₂ (SameRow settings ds) (Text.rows ends (unlines ls))
      (Text.rows ends (unlines ms)) := by
  rw [Code.rows_unlines hends.feed, Code.rows_unlines hends.feed]
  refine List.rel_append (List.rel_flatMap h fun l m hl => hl.rows hends) ?_
  exact .cons (.inl rfl) .nil

theorem filter_ends_unlines (h : List.Forall₂ (SameLine settings ds) ls ms)
    (hends : Text.LineEnds ends) :
    (unlines ls).toList.filter ends = (unlines ms).toList.filter ends := by
  induction h with
  | nil => rfl
  | cons hl _ ih =>
    simp only [Code.unlines_cons, String.toList_append, List.filter_append, ih,
      hl.filter_ends hends]

end Rows

namespace Program

variable {settings : Settings} {ds es : List Declaration} {p q : Program}

/-- Nothing that is refused is refused for a fault of the program. -/
theorem compile_ne_fault (registry : Registry) (settings : Settings) (ds : List Declaration)
    (fault : Fault) : compile registry settings ds ≠ .error (.fault fault) := by
  intro h
  obtain ⟨i, d, -, hrefused, -⟩ := compile_eq_error_iff_refusal.1 h
  rcases Declaration.refusal?_cases hrefused with hid | htype | harguments
  · cases hid
  · cases htype
  · exact harguments

/-- With a proper prefix no list of declarations leads to a fault. Where two lists differ in
arguments only, the texts of the programs have the same rows but for those that bind templates or
array names of nodes, and they have the same characters that end lines. -/
theorem arguments_stay_in_bindings (registry : Registry)
    (hproper : Text.isIdentifier settings.variablePrefix.toList) :
    (∀ ds fault, compile registry settings ds ≠ .error (.fault fault)) ∧
    (∀ ds p, compile registry settings ds = .ok p → ∃ s, p.render = .ok s) ∧
    ∀ ds es p q, List.Forall₂ Declaration.SameButArguments ds es →
      compile registry settings ds = .ok p → compile registry settings es = .ok q →
      ∃ s t, p.render = .ok s ∧ q.render = .ok t ∧ ∀ ends, Text.LineEnds ends →
        List.Forall₂ (SameRow settings ds) (Text.rows ends s) (Text.rows ends t) ∧
        s.toList.filter ends = t.toList.filter ends := by
  refine ⟨compile_ne_fault registry settings, fun ds p hp => ?_, fun ds es p q h hp hq => ?_⟩
  · obtain ⟨ls, front, -, hrender⟩ := exists_render hproper hp
    exact ⟨_, hrender⟩
  · have halike : List.Forall₂ Declaration.Alike ds es :=
      h.imp fun d e hd => ⟨hd.2, congrArg sanitized hd.1⟩
    obtain ⟨nodes, hnodes, -⟩ := compile_eq_ok_iff.1 hp
    obtain ⟨nodes', hnodes', -⟩ := compile_eq_ok_iff.1 hq
    obtain ⟨front, back, rests, -, hs, ht⟩ := exists_frame halike hproper hp hq
    have hsame (ls : List String) : List.Forall₂ (SameLine settings ds) ls ls :=
      List.forall₂_same.2 fun l _ => .inl rfl
    have hlayout :=
      sameLine_layout hproper h (built_of_makes hnodes) (built_of_makes hnodes') rests
    have hlines := List.rel_append (List.rel_append (hsame front) hlayout) (hsame back)
    exact ⟨_, _, hs, ht, fun ends hends =>
      ⟨sameRow_unlines hlines hends, filter_ends_unlines hlines hends⟩⟩

/-- Arguments with a line feed, quotes and a line separator. -/
def noisy : List Declaration :=
  [⟨"box", "msg", [.symbol "a\nb", .symbol "\""]⟩, ⟨"table", "tabread", [.symbol "\u2028\\"]⟩]

def quiet : List Declaration := [⟨"box", "msg", []⟩, ⟨"table", "tabread", []⟩]

theorem arguments_stay_in_bindings_noisy : ∃ p q s t, compile .builtin {} noisy = .ok p ∧
    compile .builtin {} quiet = .ok q ∧ p.render = .ok s ∧ q.render = .ok t ∧
    List.Forall₂ (SameRow {} noisy) (Text.rows Text.endsLine s) (Text.rows Text.endsLine t) ∧
    s.toList.filter Text.endsLine = t.toList.filter Text.endsLine := by
  obtain ⟨p, hp⟩ := exists_compile_of_toBool (show (compileNodes .builtin {} [] noisy).toBool by
    decide +kernel)
  obtain ⟨q, hq⟩ := exists_compile_of_toBool (show (compileNodes .builtin {} [] quiet).toBool by
    decide +kernel)
  have hsame : List.Forall₂ Declaration.SameButArguments noisy quiet :=
    .cons ⟨rfl, rfl⟩ (.cons ⟨rfl, rfl⟩ .nil)
  have hproper : Text.isIdentifier ({} : Settings).variablePrefix.toList := by decide
  obtain ⟨-, -, hpair⟩ := arguments_stay_in_bindings .builtin hproper
  obtain ⟨s, t, hs, ht, hrows⟩ := hpair noisy quiet p q hsame hp hq
  obtain ⟨hsameRows, hends⟩ := hrows Text.endsLine Text.lineEnds_endsLine
  exact ⟨p, q, s, t, hp, hq, hs, ht, hsameRows, hends⟩

end Program

end Patchbay
