import Patchbay.Error
import Patchbay.Settings.Basic

/-!
Names of one node in the emitted program: the configured prefix, the identifier made of the node's
id, and the name that the node uses for the thing, joined by underscores.
-/
namespace Patchbay

/-- The text with `_` for each character that is no ASCII letter or digit. -/
def sanitized (id : String) : String :=
  String.ofList (id.toList.map fun c => if Text.isWordChar c then c else '_')

/-- The names that a node may use: the part that all of them begin with and the state variables
that the node declared. -/
structure Names where
  space : String
  declared : List String

namespace Names

def ofNode (settings : Settings) (id : String) (declared : List String) : Names :=
  ⟨settings.variablePrefix ++ "_" ++ sanitized id, declared⟩

/-- The name of something that the node itself declares. -/
def own (names : Names) (name : String) : String := names.space ++ "_" ++ name

/-- The name of a state variable, which must be declared. -/
def state (names : Names) (name : String) : Except Fault String :=
  if name ∈ names.declared then .ok (names.own name) else .error (.undeclaredState name)

/-- Read by a loop body. -/
def input (names : Names) (inlet : Nat) : String := names.own s!"INS_{inlet}"

/-- Assigned by a loop body. -/
def output (names : Names) (outlet : Nat) : String := names.own s!"OUTS_{outlet}"

/-- The function that sends a message out of an outlet. -/
def sender (names : Names) (outlet : Nat) : String := names.own s!"SNDS_{outlet}"

/-- The function that takes the messages of an inlet. -/
def receiver (names : Names) (inlet : Nat) : String := names.own s!"RCVS_{inlet}"

/-- The parameter of every receiver. -/
def message : String := "m"

def sampleRate : String := "SAMPLE_RATE"

theorem state_eq_ok_iff {names : Names} {name full : String} :
    names.state name = .ok full ↔ name ∈ names.declared ∧ names.own name = full := by
  unfold state
  split <;> simp_all

end Names

end Patchbay
