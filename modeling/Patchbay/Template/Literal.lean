import Patchbay.Code.Basic
import Patchbay.Template.Basic
import Patchbay.Text.Quoted

/-!
Templates as data of the emitted language: an array of templates, each an array of segments. A
segment is an object with a tag `t` and a value `v`: a number, a symbol, or the pieces of a text,
where references stand as bare numbers.
-/
namespace Patchbay

/-- The items in brackets, with commas between them. -/
def arrayLiteral (items : List String) : String := "[" ++ ", ".intercalate items ++ "]"

/-- An object with a tag and a value. -/
def taggedLiteral (tag value : String) : String :=
  "\x7bt: \"" ++ tag ++ "\", v: " ++ value ++ "\x7d"

def Piece.literal : Piece → String
  | .text s => Text.quoted s
  | .placeholder index => toString index

def Segment.literalText : Segment → String
  | .literal (.float x) => taggedLiteral "f" (numberLiteral x)
  | .literal (.symbol s) => taggedLiteral "s" (Text.quoted s)
  | .text pieces => taggedLiteral "p" (arrayLiteral (pieces.map Piece.literal))

def Template.literal (t : Template) : String := arrayLiteral (t.segments.map Segment.literalText)

def Templates.literal (ts : Templates) : String := arrayLiteral (ts.toList.map Template.literal)

end Patchbay
