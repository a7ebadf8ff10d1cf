import Patchbay.Error

/-!
Segments: the tokens of a template. A symbol is scanned for references `$n` to the atoms of an
incoming message, counted from one, while `\$` stands for a dollar sign. Scanning goes in two
steps: the token is read as marks, one for each character or reference, and neighbouring characters
are then joined.
-/
namespace Patchbay

inductive Piece where
  | text (content : String)
  | placeholder (index : Nat)
  deriving DecidableEq, Repr

inductive Segment where
  /-- Copied as it is. -/
  | literal (atom : Atom)
  /-- Text that holds at least one reference. -/
  | text (pieces : List Piece)

/-- The largest index that a reference may have, the last of the integers up to which every one is
a float. -/
def maxPlaceholderIndex : Nat := 9_007_199_254_740_991

inductive Mark where
  | char (c : Char)
  | placeholder (index : Nat)
  deriving DecidableEq, Repr

def decimalValue (ds : List Char) : Nat :=
  ds.foldl (fun n d => 10 * n + (d.toNat - '0'.toNat)) 0

/-- The index that a run of digits stands for. -/
def placeholderIndex (ds : List Char) : Except PlaceholderFault Nat :=
  if ds = [] then .error .missingIndex
  else if maxPlaceholderIndex < decimalValue ds then .error .indexTooLarge
  else if decimalValue ds = 0 then .error .indexZero
  else .ok (decimalValue ds)

def marks (token : List Char) : Except PlaceholderFault (List Mark) :=
  match token with
  | [] => .ok []
  | '\\' :: '$' :: rest => do
    let ms ← marks rest
    return .char '$' :: ms
  | '$' :: rest => do
    let index ← placeholderIndex (rest.takeWhile Char.isDigit)
    let ms ← marks (rest.dropWhile Char.isDigit)
    return .placeholder index :: ms
  | c :: rest => do
    let ms ← marks rest
    return .char c :: ms
termination_by token.length
decreasing_by
  · simp only [List.length_cons]
    omega
  · have := (List.dropWhile_suffix Char.isDigit (l := rest)).length_le
    simp only [List.length_cons]
    omega
  · simp only [List.length_cons]
    omega

/-- Adds a character in front, to the text that stands there if there is one. -/
def Piece.consChar (c : Char) : List Piece → List Piece
  | .text s :: rest => .text (String.ofList (c :: s.toList)) :: rest
  | pieces => .text (String.ofList [c]) :: pieces

/-- References and the texts between them. -/
def Piece.ofMarks : List Mark → List Piece
  | [] => []
  | .placeholder index :: ms => .placeholder index :: ofMarks ms
  | .char c :: ms => consChar c (ofMarks ms)

/-- The characters among the marks. -/
def Mark.chars (ms : List Mark) : List Char :=
  ms.filterMap fun
    | .char c => some c
    | .placeholder _ => none

def Mark.isPlaceholder : Mark → Bool
  | .char _ => false
  | .placeholder _ => true

namespace Segment

def ofMarks (ms : List Mark) : Segment :=
  if ms.any Mark.isPlaceholder then .text (Piece.ofMarks ms)
  else .literal (.symbol (String.ofList (Mark.chars ms)))

/-- Scans a symbol. -/
def ofSymbol (token : String) : Except Error Segment :=
  match marks token.toList with
  | .ok ms => .ok (ofMarks ms)
  | .error cause => .error (.placeholder token cause)

/-- A number is copied, a symbol scanned. -/
def ofAtom : Atom → Except Error Segment
  | .float x => .ok (.literal (.float x))
  | .symbol s => ofSymbol s

/-- The largest index that the pieces refer to, zero if they refer to none. -/
def maxPlaceholder : Segment → Nat
  | .literal _ => 0
  | .text pieces => pieces.foldr (fun p n => match p with
      | .placeholder index => max index n
      | .text _ => n) 0

end Segment

/-- A reference past the end of the message. -/
structure OutOfRange where
  index : Nat
  length : Nat
  deriving DecidableEq, Repr

def OutOfRange.message (e : OutOfRange) : String :=
  s!"placeholder ${e.index} out of range for a message of length {e.length}"

namespace Message

/-- The atom at a position counted from one. -/
def atomAt (m : Message) (index : Nat) : Except OutOfRange Atom :=
  if index = 0 then .error ⟨index, m.length⟩
  else match m[index - 1]? with
    | some a => .ok a
    | none => .error ⟨index, m.length⟩

end Message

def Piece.evaluate (incoming : Message) : Piece → Except OutOfRange String
  | .text s => .ok s
  | .placeholder index => (incoming.atomAt index).map Atom.text

/-- The atom that a segment stands for. A reference on its own keeps the kind of the atom; other
text becomes a symbol. -/
def Segment.evaluate (incoming : Message) : Segment → Except OutOfRange Atom
  | .literal a => .ok a
  | .text [.placeholder index] => incoming.atomAt index
  | .text pieces => do
    let texts ← pieces.mapM (Piece.evaluate incoming)
    return .symbol (String.join texts)

end Patchbay
