import Mathlib
import Patchbay.Program.Basic
import Patchbay.Proofs.Except
import Patchbay.Proofs.Helper.Emission
import Patchbay.Proofs.Helper.Identifiers
import Patchbay.Proofs.Node.Names
import Patchbay.Proofs.Patch.Fitted

/-!
The names in a program. Those of one node differ in what they are for, those of different nodes in
what is left of the ids, and none of them is taken by a helper unit or by the loop.
-/
namespace Patchbay

/-- The names that a node uses: its state variables, the functions that it declares, and those of
its jacks. -/
def Contribution.names (settings : Settings) (node : Contribution) : List String :=
  let names := Names.ofNode settings node.id []
  node.state.declaredNames ++ (node.declarations.elim [] Code.declaredNames) ++
    (List.range node.jacks.inlets.length).map names.input ++
    (List.range node.jacks.outlets.length).map names.output ++
    (List.range node.jacks.outlets.length).map names.sender ++
    (List.range node.jacks.inlets.length).map names.receiver

/-- All names that the nodes of a program use. -/
def Program.names (p : Program) : List String := p.nodes.flatMap (Contribution.names p.settings)

namespace Node

def stateWords : Node → List Word
  | message .. => [.templates]
  | tableWrite .. => [.array, .arrayName, .arrayChangesSubscription, .index]
  | tableRead .. => [.array, .arrayName, .arrayChangesSubscription]
  | sampleRate | func _ => []

def declaredWords : Node → List Word
  | tableWrite .. => [.setArrayName, .setIndex]
  | tableRead .. => [.setArrayName]
  | _ => []

theorem nodup_words (node : Node) : (node.stateWords ++ node.declaredWords).Nodup := by
  cases node <;> simp [stateWords, declaredWords]

theorem stateVariables_names (node : Node) :
    node.stateVariables.map (·.name) = node.stateWords.map Word.text := by cases node <;> rfl

end Node

/-- What a node with these jacks has names for. -/
def NewNode.locals (made : NewNode) : List Local :=
  (made.node.stateWords ++ made.node.declaredWords).map .word ++
    (List.range made.jacks.inlets.length).map (.jack .input) ++
    (List.range made.jacks.outlets.length).map (.jack .output) ++
    (List.range made.jacks.outlets.length).map (.jack .sender) ++
    (List.range made.jacks.inlets.length).map (.jack .receiver)

theorem NewNode.nodup_locals (made : NewNode) : made.locals.Nodup := by
  have hwords : ((made.node.stateWords ++ made.node.declaredWords).map Local.word).Nodup :=
    made.node.nodup_words.map fun _ _ h => Local.word.inj h
  have hjack (j : JackName) (n : ℕ) : ((List.range n).map (Local.jack j)).Nodup :=
    List.nodup_range.map fun _ _ h => (Local.jack.inj h).2
  simpa [locals, List.nodup_append', hjack, List.disjoint_left] using hwords

section Code

variable {settings : Settings} {names : Names}

section Declare

variable {vars : List StateVariable} {code : Code}

/-- State variables are bound one by one. -/
theorem declare_eq (h : StateVariable.declare settings names vars = .ok code) :
    code = .block (vars.map fun v =>
      .binding (names.own v.name) (some (v.init.render settings))) := by
  obtain ⟨items, hitems, h⟩ := bind_eq_ok.1 h
  cases h
  have hforall : List.Forall₂ (fun v item =>
      Code.binding (names.own v.name) (some (v.init.render settings)) = item) vars items := by
    refine (forall₂_of_mapM_eq_ok hitems).imp fun v item hitem => ?_
    obtain ⟨name, hname, hitem⟩ := bind_eq_ok.1 hitem
    cases hitem
    rw [(Names.state_eq_ok_iff.1 hname).2]
  rw [← List.forall₂_map_left_iff, List.forall₂_eq_eq_eq] at hforall
  rw [hforall]

theorem namesOfAll_bindings (bindings : List (String × Option String)) :
    Code.namesOfAll (bindings.map fun b => .binding b.1 b.2) = bindings.map (·.1) := by
  induction bindings with
  | nil => rfl
  | cons b bindings ih =>
    rw [List.map_cons, Code.namesOfAll, ih]
    rfl

theorem declaredNames_declare (h : StateVariable.declare settings names vars = .ok code) :
    code.declaredNames = vars.map fun v => names.own v.name := by
  have hnames := namesOfAll_bindings
    (vars.map fun v => (names.own v.name, some (v.init.render settings)))
  simp only [List.map_map] at hnames
  rw [declare_eq h, Code.declaredNames]
  exact hnames

end Declare

theorem declaredNames_tableDeclarations {code : Code}
    (h : Table.declarations settings names = .ok code) :
    code.declaredNames = [names.own Word.setArrayName.text] := by
  obtain ⟨array, -, h⟩ := bind_eq_ok.1 h
  obtain ⟨arrayName, -, h⟩ := bind_eq_ok.1 h
  obtain ⟨subscription, -, h⟩ := bind_eq_ok.1 h
  cases h
  rfl

theorem declaredNames_declarations {node : Node} {code : Option Code}
    (h : node.declarations settings names = .ok code) :
    code.elim [] Code.declaredNames = node.declaredWords.map fun w => names.own w.text := by
  cases node with
  | tableWrite declared cursor =>
    obtain ⟨base, hbase, h⟩ := bind_eq_ok.1 h
    obtain ⟨index, -, h⟩ := bind_eq_ok.1 h
    cases h
    have hnames := declaredNames_tableDeclarations hbase
    simp only [Option.elim, Code.declaredNames, Code.namesOfAll, hnames]
    rfl
  | tableRead declared cursor =>
    obtain ⟨base, hbase, h⟩ := bind_eq_ok.1 h
    cases h
    exact declaredNames_tableDeclarations hbase
  | message | sampleRate | func =>
    cases h
    rfl

theorem receiverNames_generate {node : Node} {generated : Behaviour}
    (h : node.generate names = .ok generated) : ∀ r ∈ generated.receiverNames names,
      ∃ k < node.kind.jacks.inlets.length, r = (k, names.receiver k) := by
  cases node with
  | message declared active =>
    obtain ⟨code, -, h⟩ := bind_eq_ok.1 h
    cases h
    exact List.forall_mem_singleton.2 ⟨0, Nat.zero_lt_one, rfl⟩
  | tableWrite declared cursor =>
    obtain ⟨byInlet, hby, h⟩ := bind_eq_ok.1 h
    obtain ⟨array, -, hby⟩ := bind_eq_ok.1 hby
    obtain ⟨index, -, hby⟩ := bind_eq_ok.1 hby
    cases hby
    cases h
    exact List.forall_mem_cons.2 ⟨⟨0, Nat.zero_lt_two, rfl⟩,
      List.forall_mem_singleton.2 ⟨1, Nat.one_lt_two, rfl⟩⟩
  | tableRead declared cursor =>
    obtain ⟨code, -, h⟩ := bind_eq_ok.1 h
    cases h
    exact List.forall_mem_singleton.2 ⟨0, Nat.zero_lt_one, rfl⟩
  | sampleRate =>
    cases h
    exact List.forall_mem_singleton.2 ⟨0, Nat.zero_lt_one, rfl⟩
  | func f =>
    cases h
    exact fun r hr => absurd hr List.not_mem_nil

end Code

/-- The names of a node are those of different things, and its receivers have names among them. -/
structure Contribution.Named (settings : Settings) (node : Contribution) : Prop where
  ofLocals : ∃ locals : List Local, locals.Nodup ∧ node.names settings =
    locals.map fun l => (Names.ofNode settings node.id []).own l.text
  receivers : ∀ r ∈ node.receiverNames, r.2 ∈ node.names settings

/-- The names of a node under an id. -/
def NewNode.names (settings : Settings) (id : String) (made : NewNode) : Names :=
  Names.ofNode settings id (made.node.stateVariables.map (·.name))

/-- What a node contributes is put together from its code, its state and its declarations. -/
theorem NewNode.parts_of_compile {settings : Settings} {id : String} {made : NewNode}
    {node : Contribution} (h : made.compile settings id = .ok node) :
    ∃ generated state declarations,
      made.node.generate (made.names settings id) = .ok generated ∧
      StateVariable.declare settings (made.names settings id) made.node.stateVariables =
        .ok state ∧
      made.node.declarations settings (made.names settings id) = .ok declarations ∧
      node = ⟨id, made.nodeType, made.jacks, state, declarations, generated,
        generated.receiverNames (made.names settings id)⟩ := by
  obtain ⟨generated, hgenerated, h⟩ := bind_eq_ok.1 h
  obtain ⟨state, hstate, h⟩ := bind_eq_ok.1 h
  obtain ⟨declarations, hdeclarations, h⟩ := bind_eq_ok.1 h
  exact ⟨generated, state, declarations, hgenerated, hstate, hdeclarations,
    (Except.ok.inj h).symm⟩

theorem NewNode.named_compile {settings : Settings} {id : String} {made : NewNode}
    {node : Contribution} (hjacks : made.jacks = made.node.kind.jacks)
    (h : made.compile settings id = .ok node) : node.id = id ∧ node.Named settings := by
  obtain ⟨generated, state, declarations, hgenerated, hstate, hdeclarations, rfl⟩ :=
    parts_of_compile h
  refine ⟨rfl, ⟨made.locals, made.nodup_locals, ?_⟩, fun r hr => ?_⟩
  · have hwords : state.declaredNames =
        made.node.stateWords.map fun w => (Names.ofNode settings id []).own w.text := by
      have hvars := congrArg (List.map (Names.ofNode settings id []).own)
        made.node.stateVariables_names
      rw [List.map_map, List.map_map] at hvars
      exact (declaredNames_declare hstate).trans hvars
    simp only [Contribution.names, locals, List.map_append, List.map_map, hwords,
      declaredNames_declarations hdeclarations]
    rfl
  · obtain ⟨k, hk, rfl⟩ := receiverNames_generate hgenerated r hr
    rw [← hjacks] at hk
    exact List.mem_append_right _ (List.mem_map.2 ⟨k, List.mem_range.2 hk, rfl⟩)

section Program

variable {registry : Registry} {settings : Settings} {ds : List Declaration}

/-- The nodes of a program differ in what is left of their ids. -/
theorem compileNodes_named {seen : List String} {nodes : List (Contribution × List Helper.Builtin)}
    (h : Program.compileNodes registry settings seen ds = .ok nodes) :
    (∀ n ∈ nodes, sanitized n.1.id ∉ seen) ∧
      (nodes.map fun n => sanitized n.1.id).Nodup ∧ ∀ n ∈ nodes, n.1.Named settings := by
  induction ds generalizing seen nodes with
  | nil =>
    cases h
    simp
  | cons d ds ih =>
    rw [Program.compileNodes] at h
    split at h
    · cases h
    next hseen =>
    obtain ⟨made, hbuild, h⟩ := bind_eq_ok.1 h
    obtain ⟨node, hnode, h⟩ := bind_eq_ok.1 h
    obtain ⟨others, hothers, h⟩ := bind_eq_ok.1 h
    cases h
    have hmade : made.compile settings d.id = .ok node := by
      cases hc : made.compile settings d.id with
      | ok a => rw [hc] at hnode; exact congrArg _ (Except.ok.inj hnode)
      | error e => rw [hc] at hnode; cases hnode
    obtain ⟨hid, hnamed⟩ := NewNode.named_compile (Registry.jacks_build hbuild).symm hmade
    obtain ⟨hnew, hnodup, hothers⟩ := ih hothers
    refine ⟨?_, ?_, ?_⟩
    · rintro n (_ | ⟨_, hn⟩)
      · rwa [hid]
      · exact fun hmem => hnew n hn (List.mem_cons_of_mem _ hmem)
    · rw [List.map_cons, List.nodup_cons]
      refine ⟨fun hmem => ?_, hnodup⟩
      obtain ⟨n, hn, heq⟩ := List.mem_map.1 hmem
      exact hnew n hn (by rw [heq, hid]; exact List.mem_cons_self)
    · rintro n (_ | ⟨_, hn⟩)
      · exact hnamed
      · exact hothers n hn

/-- The nodes of a program that is accepted are those that were compiled. -/
theorem compile_eq_ok {p : Program} (h : Program.compile registry settings ds = .ok p) :
    p.settings = settings ∧
      ∃ nodes, Program.compileNodes registry settings [] ds = .ok nodes ∧
        p.nodes = nodes.map (·.1) := by
  obtain ⟨nodes, hnodes, h⟩ := bind_eq_ok.1 h
  obtain ⟨helpers, -, h⟩ := bind_eq_ok.1 h
  cases h
  exact ⟨rfl, nodes, hnodes, rfl⟩

/-- In a program that is accepted no two names of nodes are the same, whatever the ids look like.
None of them is the name of the loop or an identifier in the code of a helper unit, and with a
proper prefix all of them are identifiers. The receivers have their names among them. -/
theorem Program.names_apart {p : Program} (h : Program.compile registry settings ds = .ok p) :
    p.names.Nodup ∧
      (∀ name ∈ p.names, name ≠ "loop" ∧
        (∀ b : Helper.Builtin, name.toList ∉ b.identifiers settings) ∧
        (Text.isIdentifier settings.variablePrefix.toList → Text.isIdentifier name.toList)) ∧
      ∀ node ∈ p.nodes, ∀ r ∈ node.receiverNames, r.2 ∈ p.names := by
  obtain ⟨hsettings, nodes, hnodes, hp⟩ := compile_eq_ok h
  obtain ⟨-, hids, hnamed⟩ := compileNodes_named hnodes
  have hnames : p.names = nodes.flatMap fun n => n.1.names settings := by
    rw [Program.names, hp, hsettings, List.flatMap_map]
  refine ⟨?_, fun name hname => ?_, fun node hnode r hr => ?_⟩
  · rw [hnames, List.nodup_flatMap]
    refine ⟨fun n hn => ?_, ?_⟩
    · obtain ⟨locals, hnodup, hn⟩ := (hnamed n hn).ofLocals
      rw [hn]
      exact hnodup.map fun _ _ heq => (Names.own_inj heq).2
    · refine (List.pairwise_map.1 hids).imp_of_mem fun {n n'} hn hn' hne => ?_
      obtain ⟨locals, -, hn⟩ := (hnamed n hn).ofLocals
      obtain ⟨locals', -, hn'⟩ := (hnamed n' hn').ofLocals
      rw [Function.onFun, hn, hn', List.disjoint_left]
      intro name hname hname'
      obtain ⟨l, -, rfl⟩ := List.mem_map.1 hname
      obtain ⟨l', -, heq⟩ := List.mem_map.1 hname'
      exact hne (Names.own_inj heq).1.symm
  · rw [hnames] at hname
    obtain ⟨n, hn, hname⟩ := List.mem_flatMap.1 hname
    obtain ⟨locals, -, hn⟩ := (hnamed n hn).ofLocals
    rw [hn] at hname
    obtain ⟨l, -, rfl⟩ := List.mem_map.1 hname
    refine ⟨fun heq => ?_, fun b => Helper.own_notMem_identifiers _ l settings b,
      fun hproper => Names.isIdentifier_own hproper l⟩
    have hmem := Names.underscore_mem_own (Names.ofNode settings n.1.id []) l.text
    rw [heq] at hmem
    exact absurd hmem (by decide)
  · rw [hp] at hnode
    obtain ⟨n, hn, rfl⟩ := List.mem_map.1 hnode
    rw [hnames]
    exact List.mem_flatMap.2 ⟨n, hn, (hnamed n hn).receivers r hr⟩

/-- Ids that look like names of each other's things. -/
def crowded : List Declaration :=
  [⟨"a", "tabwrite", [.symbol "x"]⟩, ⟨"a_INS_0", "tabread", []⟩, ⟨"a_index", "msg", [.symbol "$1"]⟩,
    ⟨"", "samplerate~", []⟩, ⟨"INS.0", "abs~", []⟩]

theorem Program.names_apart_crowded : ∃ p, Program.compile .builtin {} crowded = .ok p ∧
    p.names.Nodup ∧ ∀ name ∈ p.names, name ≠ "loop" ∧ Text.isIdentifier name.toList := by
  have hcompile : ∃ p, Program.compile .builtin {} crowded = .ok p := by
    have hok : (Program.compileNodes .builtin {} [] crowded).toBool := by decide +kernel
    cases hnodes : Program.compileNodes .builtin {} [] crowded with
    | error e => rw [hnodes] at hok; cases hok
    | ok nodes =>
      obtain ⟨helpers, hhelpers⟩ := exists_resolve_library (nodes.flatMap (·.2))
      exact ⟨_, bind_eq_ok.2 ⟨nodes, hnodes, bind_eq_ok.2 ⟨helpers, hhelpers, rfl⟩⟩⟩
  obtain ⟨p, hp⟩ := hcompile
  obtain ⟨hnodup, hnames, -⟩ := Program.names_apart hp
  exact ⟨p, hp, hnodup, fun name hname => ⟨(hnames name hname).1,
    (hnames name hname).2.2 (by decide)⟩⟩

end Program

end Patchbay
