import Patchbay.Proofs.Code.Rows
import Patchbay.Proofs.Program.Append

/-!
What the text of a program owes to ids and arguments. A raw id stands in the comment in front of
its node, and arguments stand behind that in the lines that bind the state variables. All the other
lines are the same for declarations that agree in types and in what is left of ids.
-/
namespace Patchbay

open Code (Prints unlines)

/-- The bindings of the state variables of a node. -/
def Node.stateLines (settings : Settings) (names : Names) (node : Node) : List String :=
  node.stateVariables.map fun v =>
    Code.bindingLine (names.own v.name) (some (v.init.render settings))

namespace Declaration

/-- The comment in front of the node. -/
def comment (d : Declaration) : String := commentLine d.nodeType d.id

def names (settings : Settings) (d : Declaration) : Names := Names.ofNode settings d.id []

/-- The same but for arguments and for what is lost of ids. -/
def Alike (d e : Declaration) : Prop := d.nodeType = e.nodeType ∧ sanitized d.id = sanitized e.id

/-- The first lines of a node: its comment and the bindings of its state variables. -/
def head (registry : Registry) (settings : Settings) (d : Declaration) : List String :=
  match registry.build d.nodeType d.args with
  | .ok made => d.comment :: made.node.stateLines settings (d.names settings)
  | .error _ => []

end Declaration

section State

variable {settings : Settings} {names : Names} {vars : List StateVariable} {code : Code}

theorem linesOfAll_bindings (bindings : List (String × Option String)) :
    Code.linesOfAll (bindings.map fun b => .binding b.1 b.2) =
      .ok (bindings.map fun b => Code.bindingLine b.1 b.2) := by
  induction bindings with
  | nil => rfl
  | cons b bindings ih =>
    rw [List.map_cons, Code.linesOfAll, ih]
    rfl

theorem lines_declare (h : StateVariable.declare settings names vars = .ok code) :
    code.lines = .ok (vars.map fun v =>
      Code.bindingLine (names.own v.name) (some (v.init.render settings))) := by
  have hlines := linesOfAll_bindings
    (vars.map fun v => (names.own v.name, some (v.init.render settings)))
  simp only [List.map_map] at hlines
  rw [declare_eq h, Code.lines]
  exact hlines

end State

section Kind

variable {node node' : Node} {names : Names} {settings : Settings}

/-- The code of a node but for its state depends on its kind only. -/
theorem Node.generate_congr (h : node.kind = node'.kind) :
    node.generate names = node'.generate names := by
  cases node <;> cases node' <;> cases h <;> rfl

theorem Node.declarations_congr (h : node.kind = node'.kind) :
    node.declarations settings names = node'.declarations settings names := by
  cases node <;> cases node' <;> cases h <;> rfl

theorem Node.needs_congr (h : node.kind = node'.kind) : node.needs = node'.needs := by
  cases node <;> cases node' <;> cases h <;> rfl

theorem Node.stateWords_congr (h : node.kind = node'.kind) :
    node.stateWords = node'.stateWords := by
  cases node <;> cases node' <;> cases h <;> rfl

end Kind

section Twin

variable {registry : Registry} {settings : Settings} {d e : Declaration}
  {n n' : Contribution × List Helper.Builtin}

/-- Declarations that are alike make nodes that differ in ids and state only. -/
theorem Declaration.Alike.twin (h : d.Alike e) (hn : d.Makes registry settings n)
    (hn' : e.Makes registry settings n') :
    n'.1 = { n.1 with id := n'.1.id, state := n'.1.state } ∧ n'.2 = n.2 := by
  obtain ⟨made, hbuild, hcompile, hneeds⟩ := hn
  obtain ⟨made', hbuild', hcompile', hneeds'⟩ := hn'
  obtain ⟨htype, hid⟩ := h
  obtain ⟨kind, hkind, hnode, hname, hjacks⟩ := Registry.build_eq_ok hbuild
  obtain ⟨kind', hkind', hnode', hname', hjacks'⟩ := Registry.build_eq_ok hbuild'
  rw [← htype, hkind] at hkind'
  obtain rfl := Option.some.inj hkind'
  have hsame : made'.node.kind = made.node.kind := hnode'.trans hnode.symm
  have hnames : made'.names settings e.id = made.names settings d.id := by
    rw [NewNode.names, NewNode.names, Node.stateVariables_names, Node.stateVariables_names,
      Node.stateWords_congr hsame, Names.ofNode, Names.ofNode, hid]
  constructor
  · obtain ⟨generated, state, declarations, hgenerated, -, hdeclarations, hn⟩ :=
      NewNode.parts_of_compile hcompile
    obtain ⟨generated', state', declarations', hgenerated', -, hdeclarations', hn'⟩ :=
      NewNode.parts_of_compile hcompile'
    rw [hnames, Node.generate_congr hsame, hgenerated] at hgenerated'
    rw [hnames, Node.declarations_congr hsame, hdeclarations] at hdeclarations'
    obtain rfl := Except.ok.inj hgenerated'
    obtain rfl := Except.ok.inj hdeclarations'
    rw [hn, hn', hnames, hname, hname', hjacks, hjacks', htype]
  · rw [← hneeds, ← hneeds', Node.needs_congr hsame]

/-- A node begins with what its declaration says. -/
theorem Declaration.Makes.head_eq (h : d.Makes registry settings n) :
    ∃ lines, n.1.state.lines = .ok lines ∧
      d.head registry settings = commentLine n.1.nodeType n.1.id :: lines := by
  obtain ⟨made, hbuild, hcompile, -⟩ := h
  obtain ⟨kind, -, -, hname, -⟩ := Registry.build_eq_ok hbuild
  obtain ⟨generated, state, declarations, -, hstate, -, hn⟩ := NewNode.parts_of_compile hcompile
  rw [hn]
  refine ⟨_, lines_declare hstate, ?_⟩
  rw [head, hbuild, hname]
  rfl

end Twin

section Rest

variable {registry : Registry} {settings : Settings} {d e : Declaration}
  {n n' : Contribution × List Helper.Builtin}

/-- Two nodes of declarations that are alike go on alike behind their first lines. -/
theorem Declaration.Alike.exists_rest (h : d.Alike e)
    (hproper : Text.isIdentifier settings.variablePrefix.toList)
    (hn : d.Makes registry settings n) (hn' : e.Makes registry settings n') :
    ∃ rest, Prints n.1.render (d.head registry settings ++ rest) ∧
      Prints n'.1.render (e.head registry settings ++ rest) := by
  obtain ⟨htwin, -⟩ := h.twin hn hn'
  obtain ⟨lines, hlines, hhead⟩ := hn.head_eq
  obtain ⟨lines', hlines', hhead'⟩ := hn'.head_eq
  obtain ⟨made, -, hcompile, -⟩ := hn
  obtain ⟨rest, hrest⟩ := Contribution.exists_rest (NewNode.isAscii_compile hproper hcompile)
    (NewNode.receives_compile hcompile)
  refine ⟨rest, ?_, ?_⟩
  · rw [hhead]
    exact hrest n.1.id n.1.state lines hlines
  · rw [hhead', htwin]
    exact hrest n'.1.id n'.1.state lines' hlines'

end Rest

namespace Program

/-- The lines of the nodes, each with a rest behind its first lines. -/
def layout (registry : Registry) (settings : Settings) (ds : List Declaration)
    (rests : List (List String)) : List String :=
  (List.zipWith (fun d rest => d.head registry settings ++ rest) ds rests).flatten

section Frame

variable {registry : Registry} {settings : Settings} {ds es : List Declaration}
  {nodes nodes' : List (Contribution × List Helper.Builtin)}

/-- Nodes of declarations that are alike need the same helper units, do the same in the loop, and go
on alike behind their first lines. -/
theorem exists_rests (h : List.Forall₂ Declaration.Alike ds es)
    (hproper : Text.isIdentifier settings.variablePrefix.toList)
    (hnodes : List.Forall₂ (Declaration.Makes registry settings) ds nodes)
    (hnodes' : List.Forall₂ (Declaration.Makes registry settings) es nodes') :
    nodes'.flatMap (·.2) = nodes.flatMap (·.2) ∧
      (nodes'.map (·.1)).filterMap (·.loopBody?) = (nodes.map (·.1)).filterMap (·.loopBody?) ∧
      ∃ rests : List (List String), rests.length = ds.length ∧
        List.Forall₂ (fun (n : Contribution) ls => Prints n.render ls) (nodes.map (·.1))
          (List.zipWith (fun d rest => d.head registry settings ++ rest) ds rests) ∧
        List.Forall₂ (fun (n : Contribution) ls => Prints n.render ls) (nodes'.map (·.1))
          (List.zipWith (fun d rest => d.head registry settings ++ rest) es rests) := by
  induction h generalizing nodes nodes' with
  | nil =>
    cases hnodes
    cases hnodes'
    exact ⟨rfl, rfl, [], rfl, .nil, .nil⟩
  | cons hd _ ih =>
    cases hnodes with
    | @cons _ n _ nodes hn hnodes =>
      cases hnodes' with
      | @cons _ n' _ nodes' hn' hnodes' =>
        obtain ⟨hneeds, hloop, rests, hlength, hprints, hprints'⟩ := ih hnodes hnodes'
        obtain ⟨htwin, hneed⟩ := hd.twin hn hn'
        obtain ⟨rest, hrest, hrest'⟩ := hd.exists_rest hproper hn hn'
        have hbody : n'.1.loopBody? = n.1.loopBody? := by
          rw [htwin]
          rfl
        refine ⟨?_, ?_, rest :: rests, congrArg Nat.succ hlength, .cons hrest hprints,
          .cons hrest' hprints'⟩
        · rw [List.flatMap_cons, List.flatMap_cons, hneeds, hneed]
        · simp only [List.map_cons, List.filterMap_cons, hloop, hbody]

/-- Programs of declarations that are alike have all lines in common but for the first ones of each
node. -/
theorem exists_frame (h : List.Forall₂ Declaration.Alike ds es)
    (hproper : Text.isIdentifier settings.variablePrefix.toList) {p q : Program}
    (hp : compile registry settings ds = .ok p) (hq : compile registry settings es = .ok q) :
    ∃ (front back : List String) (rests : List (List String)), rests.length = ds.length ∧
      Prints p.render (front ++ layout registry settings ds rests ++ back) ∧
      Prints q.render (front ++ layout registry settings es rests ++ back) := by
  obtain ⟨nodes, hnodes, -, helpers, hhelpers, rfl⟩ := compile_eq_ok_iff.1 hp
  obtain ⟨nodes', hnodes', -, helpers', hhelpers', rfl⟩ := compile_eq_ok_iff.1 hq
  obtain ⟨hneeds, hloop, rests, hlength, hprints, hprints'⟩ :=
    exists_rests h hproper hnodes hnodes'
  rw [hneeds, hhelpers] at hhelpers'
  obtain rfl := Except.ok.inj hhelpers'
  obtain ⟨units, hunits⟩ := exists_forall₂ fun b (_ : b ∈ helpers) => prints_helper settings b
  obtain ⟨unitTexts, hunitTexts, hunitJoin⟩ := Code.exists_mapM_prints hunits
  obtain ⟨loopLines, htidy, hloopLines⟩ := exists_loopLines hproper hnodes
  obtain ⟨texts, htexts, hjoin⟩ := Code.exists_mapM_prints hprints
  obtain ⟨texts', htexts', hjoin'⟩ := Code.exists_mapM_prints hprints'
  refine ⟨units.flatten, "function loop() \x7b" :: loopLines.map Code.indented ++ ["\x7d"], rests,
    hlength, ?_, ?_⟩
  · rw [Prints, Code.unlines_append, Code.unlines_append, layout, ← hjoin, ← hunitJoin]
    simp only [render, hunitTexts, htexts, hloopLines, render_loop htidy]
    rfl
  · rw [Prints, Code.unlines_append, Code.unlines_append, layout, ← hjoin', ← hunitJoin]
    simp only [render, hunitTexts, htexts', hloop, hloopLines, render_loop htidy]
    rfl

end Frame

end Program

end Patchbay
