import Patchbay.Code.Basic
import Patchbay.Node.Names
import Patchbay.Text.Quoted

/-!
State variables: what a node keeps between events in the emitted program.
-/
namespace Patchbay

inductive ValueType where
  | integer
  | float
  | string
  | floatArray
  | templateSet
  deriving DecidableEq, Repr

def ValueType.text : ValueType → String
  | integer => "Int"
  | float => "Float"
  | string => "String"
  | floatArray => "FloatArray"
  | templateSet => "TemplateSet"

inductive StartValue where
  | integer (value : Int)
  | number (value : Float)
  | text (content : String)
  /-- An empty array of the configured width. -/
  | emptyFloatArray
  /-- Any expression of the emitted language. -/
  | expression (code : String)

def StartValue.render (settings : Settings) : StartValue → String
  | integer n => toString n
  | number x => numberLiteral x
  | text s => Text.quoted s
  | emptyFloatArray => s!"new {settings.bitDepth.floatArray}(0)"
  | expression code => code

structure StateVariable where
  name : String
  type : ValueType
  init : StartValue

/-- The declarations of the variables under their full names. -/
def StateVariable.declare (settings : Settings) (names : Names) (vars : List StateVariable) :
    Except Fault Code := do
  let items ← vars.mapM fun v => do
    let name ← names.state v.name
    return Code.binding name (some (v.init.render settings))
  return .block items

end Patchbay
