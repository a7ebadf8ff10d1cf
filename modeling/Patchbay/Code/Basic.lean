import Patchbay.Error
import Patchbay.Text.Lines

/-!
Code fragments: a small tree of statements, variables and functions, and its text. Rendering gives
a list of lines, in which a function moves the lines of its body to the right. Numbers stand in the
text as literals of the emitted language.
-/
namespace Patchbay

inductive Code where
  /-- Statements or an expression, one on each line. -/
  | raw (text : String)
  | block (items : List Code)
  | binding (name : String) (init : Option String)
  /-- A function without a name is an expression. -/
  | function (name : Option String) (params : List String) (body : Code)
  deriving Inhabited

namespace Code

def indented (line : String) : String := "    " ++ line

def rawLines (text : String) : Except Fault (List String) :=
  match Text.dedent text.toList with
  | some ls => .ok (ls.map String.ofList)
  | none => .error .splitCharacter

def bindingLine (name : String) : Option String → String
  | some init => s!"let {name} = {init}"
  | none => s!"let {name}"

def headLine (name : Option String) (params : List String) : String :=
  let params := ", ".intercalate params
  match name with
  | some name => s!"function {name}({params}) \x7b"
  | none => s!"({params}) => \x7b"

mutual

def lines : Code → Except Fault (List String)
  | raw text => rawLines text
  | block items => linesOfAll items
  | binding name init => .ok [bindingLine name init]
  | function name params body => do
    let inner ← lines body
    return headLine name params :: inner.map indented ++ ["\x7d"]

def linesOfAll : List Code → Except Fault (List String)
  | [] => .ok []
  | item :: items => do
    let first ← lines item
    let others ← linesOfAll items
    return first ++ others

end

/-- Every line with its terminator. -/
def unlines (ls : List String) : String := String.join (ls.map (· ++ "\n"))

def render (code : Code) : Except Fault String := code.lines.map unlines

mutual

/-- The names that the fragment declares outside of functions. -/
def declaredNames : Code → List String
  | raw _ => []
  | block items => namesOfAll items
  | binding name _ => [name]
  | function name _ _ => name.toList

def namesOfAll : List Code → List String
  | [] => []
  | item :: items => declaredNames item ++ namesOfAll items

end

end Code

/-- The number as a literal. -/
def numberLiteral (x : Float) : String :=
  match Number.view x with
  | .nan => "NaN"
  | .infinite negative => if negative then "-Infinity" else "Infinity"
  | .finite .. => numberText x

end Patchbay
