import Patchbay.Helper.Library
import Patchbay.Node.Generation
import Patchbay.Node.Registry

/-!
Compilation: a list of declared nodes becomes a program, which holds what each node contributes and
the helper units that all of them need.
-/
namespace Patchbay

structure Declaration where
  id : String
  nodeType : String
  args : List Atom

/-- What one node contributes to a program. -/
structure Contribution where
  id : String
  nodeType : String
  jacks : Jacks
  state : Code
  declarations : Option Code
  generated : Behaviour
  /-- The names of the receivers, by inlet. -/
  receiverNames : List (Nat × String)

structure Program where
  helpers : List Helper.Builtin
  nodes : List Contribution
  settings : Settings

/-- Faults among other errors. -/
def Error.ofFault {α : Type} : Except Fault α → Except Error α
  | .ok a => .ok a
  | .error cause => .error (.fault cause)

def Behaviour.receiverNames (names : Names) : Behaviour → List (Nat × String)
  | .loop _ => []
  | .receivers byInlet => byInlet.map fun (inlet, _) => (inlet, names.receiver inlet)

/-- What a node adds under an id. -/
def NewNode.compile (settings : Settings) (id : String) (made : NewNode) :
    Except Fault Contribution := do
  let vars := made.node.stateVariables
  let names := Names.ofNode settings id (vars.map (·.name))
  let generated ← made.node.generate names
  return {
    id
    nodeType := made.nodeType
    jacks := made.jacks
    state := ← StateVariable.declare settings names vars
    declarations := ← made.node.declarations settings names
    generated
    receiverNames := generated.receiverNames names }

namespace Program

/-- The declarations compiled one by one, each with the helper units that it needs. Ids must differ
in what is left of them in names; `seen` holds those that were used. -/
def compileNodes (registry : Registry) (settings : Settings) (seen : List String) :
    List Declaration → Except Error (List (Contribution × List Helper.Builtin))
  | [] => .ok []
  | d :: ds =>
    if sanitized d.id ∈ seen then .error (.duplicateId d.id)
    else do
      let made ← registry.build d.nodeType d.args
      let node ← Error.ofFault (made.compile settings d.id)
      let others ← compileNodes registry settings (sanitized d.id :: seen) ds
      return (node, made.node.needs) :: others

def compile (registry : Registry) (settings : Settings) (declarations : List Declaration) :
    Except Error Program := do
  let nodes ← compileNodes registry settings [] declarations
  let helpers ← Helper.library.resolve (nodes.flatMap (·.2))
  return ⟨helpers, nodes.map (·.1), settings⟩

/-- The node that was declared with an id. -/
def node? (p : Program) (id : String) : Option Contribution := p.nodes.find? (·.id = id)

def helperNames (p : Program) : List String := p.helpers.map (·.name)

end Program

namespace Contribution

def receiverText (byInlet : List (Nat × Code)) (inlet : Nat) (name : String) :
    Except Fault String :=
  match byInlet.lookup inlet with
  | some code => return s!"const {name} = " ++ (← code.render)
  | none => .ok ""

def receiversText (node : Contribution) : Except Fault String :=
  match node.generated with
  | .loop _ => .ok ""
  | .receivers byInlet =>
    String.join <$> node.receiverNames.mapM fun (inlet, name) => receiverText byInlet inlet name

/-- All of a node but its loop body. -/
def render (node : Contribution) : Except Fault String := do
  let state ← node.state.render
  let declarations ← match node.declarations with
    | some code => code.render
    | none => .ok ""
  let receivers ← node.receiversText
  return s!"// [{node.nodeType}] {node.id}\n" ++ state ++ declarations ++ receivers

def loopBody? (node : Contribution) : Option Code :=
  match node.generated with
  | .loop body => some body
  | .receivers _ => none

end Contribution

def Helper.Builtin.render (settings : Settings) (b : Helper.Builtin) : Except Fault String := do
  return s!"// {b.name}\n" ++ (← (b.body settings).render)

/-- The text of a program: the helper units, then each node, and last a function with all loop
bodies. -/
def Program.render (p : Program) : Except Fault String := do
  let helpers ← p.helpers.mapM (Helper.Builtin.render p.settings)
  let nodes ← p.nodes.mapM Contribution.render
  let loop ← (Code.function (some "loop") [] (.block (p.nodes.filterMap (·.loopBody?)))).render
  return String.join helpers ++ String.join nodes ++ loop

end Patchbay
