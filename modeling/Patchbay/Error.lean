import Patchbay.Message
import Patchbay.Jack

/-!
What can go wrong, as causes, and the wording of each. A refusal is the answer to an input that
describes no patch; a fault is a request that has no answer at all.
-/
namespace Patchbay

/-- A request that has no answer. -/
inductive Fault where
  | undeclaredState (name : String)
  | missingJack
  | splitCharacter
  deriving DecidableEq, Repr

inductive PlaceholderFault where
  | missingIndex
  | indexTooLarge
  | indexZero
  deriving DecidableEq, Repr

inductive DeclarationFault where
  | nameIsNumber (given : Float)
  | tooManyArguments (count : Nat)

inductive ConnectionFault where
  | noNode (number : Nat)
  | kindsDiffer (source : JackKind) (outlet : Nat) (sourceType : String)
      (sink : JackKind) (inlet : Nat) (sinkType : String)
  | noOutlet (nodeType : String) (outlet : Nat)
  | noInlet (nodeType : String) (inlet : Nat)
  | signalLoop (sourceType sinkType : String)

inductive SettingsFault where
  | unreadable
  | unsupportedBitDepth (bits : Nat)
  | invalidSampleRate (given : Float)
  | invalidVariablePrefix (given : String)

inductive Error where
  | declaration (nodeType : String) (cause : DeclarationFault)
  | placeholder (token : String) (cause : PlaceholderFault)
  | unknownNodeType (name : String)
  | duplicateId (id : String)
  | dependencyCycle (unit : String)
  | connection (cause : ConnectionFault)
  | settings (cause : SettingsFault)
  | fault (cause : Fault)

def Fault.message : Fault → String
  | undeclaredState name => s!"undeclared state variable {name}"
  | missingJack => "a signal function needs an inlet and an outlet"
  | splitCharacter => "the shared indentation ends inside a character"

def PlaceholderFault.message : PlaceholderFault → String
  | missingIndex => "`$` must be followed by an index"
  | indexTooLarge => "index is too large"
  | indexZero => "indices start at 1"

def DeclarationFault.message : DeclarationFault → String
  | nameIsNumber x => s!"array name must be a symbol, got {numberText x}"
  | tooManyArguments n => s!"expected at most one argument, got {n}"

def ConnectionFault.message : ConnectionFault → String
  | noNode n => s!"no node NodeId({n})"
  | kindsDiffer a outlet source b inlet sink =>
    s!"cannot connect {a.text} outlet {outlet} of [{source}] to {b.text} inlet {inlet} of [{sink}]"
  | noOutlet nodeType outlet => s!"[{nodeType}] has no outlet {outlet}"
  | noInlet nodeType inlet => s!"[{nodeType}] has no inlet {inlet}"
  | signalLoop source sink => s!"connecting [{source}] to [{sink}] creates a signal loop"

def SettingsFault.message : SettingsFault → String
  | unreadable => "the settings cannot be read"
  | unsupportedBitDepth n => s!"unsupported bit depth {n}, expected 32 or 64"
  | invalidSampleRate x => s!"sample_rate must be positive, got {Number.plain x}"
  | invalidVariablePrefix s => s!"variable_prefix `{s}` is not a valid identifier"

def Error.message : Error → String
  | declaration nodeType cause => s!"invalid declaration for [{nodeType}]: {cause.message}"
  | placeholder token cause => s!"invalid placeholder in `{token}`: {cause.message}"
  | unknownNodeType name => s!"unknown node type `{name}`"
  | duplicateId id => s!"duplicate node id `{id}`"
  | dependencyCycle unit => s!"global code dependency cycle through `{unit}`"
  | connection cause => s!"invalid connection: {cause.message}"
  | settings cause => s!"configuration error: {cause.message}"
  | fault cause => cause.message

end Patchbay
