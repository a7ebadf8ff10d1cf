import Patchbay.Number.Text
import Patchbay.Toml.Value

/-!
Writing values. A text takes the first form that shows it as it is, and otherwise a basic form with
escapes.
-/
namespace Patchbay.Toml

/-- Control characters other than tab and line feed. -/
def isControl (c : Char) : Bool :=
  (c.toNat < 0x20 && c ≠ '\t' && c ≠ '\n') || c.toNat = 0x7f

/-- The length of the longest run of a character. -/
def longestRun (c : Char) (cs : List Char) : Nat := go 0 cs
where
  /-- With `n` of them just passed. -/
  go (n : Nat) : List Char → Nat
    | [] => n
    | d :: rest => if d = c then go (n + 1) rest else max n (go 0 rest)

inductive Form where
  | basic
  | literal
  | multilineBasic
  | multilineLiteral
  deriving DecidableEq, Repr

/-- The form in which a text is written. -/
def Form.of (cs : List Char) : Form :=
  let controls := cs.any isControl
  let newline := '\n' ∈ cs
  if !controls && '"' ∉ cs && '\\' ∉ cs && !newline then .basic
  else if !controls && '\'' ∉ cs && !newline then .literal
  else if !controls && '\\' ∉ cs && longestRun '"' cs ≤ 2 then .multilineBasic
  else if !controls && longestRun '\'' cs ≤ 2 then .multilineLiteral
  else if newline then .multilineBasic
  else .basic

def upperHexDigit (n : Nat) : Char :=
  if n < 10 then Char.ofNat ('0'.toNat + n) else Char.ofNat ('A'.toNat + (n - 10))

/-- The escape of a character other than a quote or a line feed, which may be none. -/
def escaped (c : Char) : List Char :=
  if c = '\x08' then ['\\', 'b']
  else if c = '\t' then ['\\', 't']
  else if c = '\x0c' then ['\\', 'f']
  else if c = '\r' then ['\\', 'r']
  else if c = '\\' then ['\\', '\\']
  else if c.toNat < 0x20 ∨ c.toNat = 0x7f then
    ['\\', 'u', '0', '0', upperHexDigit (c.toNat / 16), upperHexDigit (c.toNat % 16)]
  else [c]

def escapedOnLine (c : Char) : List Char :=
  if c = '"' then ['\\', '"'] else if c = '\n' then ['\\', 'n'] else escaped c

/-- On several lines a quote is escaped if it would be the third in a row; `quotes` counts those
just written. -/
def escapedOnLines (quotes : Nat) : List Char → List Char
  | [] => []
  | c :: rest =>
    if c = '"' then
      if quotes < 2 then '"' :: escapedOnLines (quotes + 1) rest
      else '\\' :: '"' :: escapedOnLines 0 rest
    else (if c = '\n' then ['\n'] else escaped c) ++ escapedOnLines 0 rest

/-- A line feed behind the opening of a text that has one. -/
def opening (cs : List Char) : List Char := if '\n' ∈ cs then ['\n'] else []

def writeText (cs : List Char) : List Char :=
  match Form.of cs with
  | .basic => '"' :: cs.flatMap escapedOnLine ++ ['"']
  | .literal => '\'' :: cs ++ ['\'']
  | .multilineBasic =>
    ['"', '"', '"'] ++ opening cs ++ escapedOnLines 0 cs ++ ['"', '"', '"']
  | .multilineLiteral =>
    ['\'', '\'', '\''] ++ opening cs ++ cs ++ ['\'', '\'', '\'']

/-- A float has a point, unless it is infinite or no number. -/
def writeFloat (x : Float) : List Char :=
  match Number.view x with
  | .nan => ['n', 'a', 'n']
  | .infinite _ => Number.plainChars x
  | .finite .. =>
    let digits := Number.plainChars x
    if '.' ∈ digits then digits else digits ++ ['.', '0']

def writeInteger (n : Int) : List Char := (toString n).toList

/-- A line with a key and its value. -/
def writeLine (key : String) (value : List Char) : List Char :=
  key.toList ++ [' ', '=', ' '] ++ value ++ ['\n']

end Patchbay.Toml
