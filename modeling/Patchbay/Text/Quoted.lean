import Patchbay.Text.Blank

/-!
String literals of the emitted language: double quotes around the text, and escapes for quotes,
backslashes, control characters and line terminators.
-/
namespace Patchbay.Text

/-- A lower-case hexadecimal number with at least four digits. -/
def hex4 (n : Nat) : List Char :=
  let ds := Nat.toDigits 16 n
  List.replicate (4 - ds.length) '0' ++ ds

def escaped (c : Char) : List Char :=
  if c = '"' then ['\\', '"']
  else if c = '\\' then ['\\', '\\']
  else if c = '\n' then ['\\', 'n']
  else if c = '\r' then ['\\', 'r']
  else if c.toNat = 0x2028 ∨ c.toNat = 0x2029 ∨ isControl c then '\\' :: 'u' :: hex4 c.toNat
  else [c]

def quotedChars (cs : List Char) : List Char :=
  '"' :: cs.flatMap escaped ++ ['"']

/-- The text as a string literal. -/
def quoted (s : String) : String := String.ofList (quotedChars s.toList)

end Patchbay.Text
