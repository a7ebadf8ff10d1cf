import Patchbay.Toml.Value

/-!
The four forms of a text: basic and literal, each on one line or on several.
-/
namespace Patchbay.Toml

/-- The character of a Unicode escape with exactly `width` digits. -/
def unicodeEscape (width : Nat) (cs : List Char) : Option (Char × List Char) :=
  let ds := cs.take width
  let n := valueOf 16 ds
  if ds.length = width ∧ ds.all isHexDigit ∧ n.isValidChar then
    some (Char.ofNat n, cs.drop width)
  else none

/-- What stands behind a backslash. -/
def escape : Reader Char
  | 'b' :: rest => some ('\x08', rest)
  | 't' :: rest => some ('\t', rest)
  | 'n' :: rest => some ('\n', rest)
  | 'f' :: rest => some ('\x0c', rest)
  | 'r' :: rest => some ('\r', rest)
  | '"' :: rest => some ('"', rest)
  | '\\' :: rest => some ('\\', rest)
  | 'u' :: rest => unicodeEscape 4 rest
  | 'U' :: rest => unicodeEscape 8 rest
  | _ => none

theorem length_escape {cs : List Char} {c : Char} {rest : List Char}
    (h : escape cs = some (c, rest)) : rest.length < cs.length := by
  unfold escape at h
  split at h
  case h_8 | h_9 =>
    simp only [unicodeEscape, Option.ite_none_right_eq_some, Option.some.injEq, Prod.mk.injEq] at h
    simp only [← h.2.2, List.length_drop, List.length_cons]
    omega
  all_goals cases h
  all_goals simp only [List.length_cons]
  all_goals omega

/-- Behind the opening quote, up to the closing one. -/
def basicBody (cs : List Char) : Option (List Char × List Char) :=
  match cs with
  | [] => none
  | '"' :: rest => some ([], rest)
  | '\\' :: rest =>
    match _h : escape rest with
    | some (c, rest') => (basicBody rest').map fun (text, left) => (c :: text, left)
    | none => none
  | c :: rest =>
    if isPrintable c then (basicBody rest).map fun (text, left) => (c :: text, left) else none
termination_by cs.length
decreasing_by
  · have := length_escape _h
    simp only [List.length_cons]
    omega
  · simp only [List.length_cons]
    omega

/-- Behind the opening apostrophe, up to the closing one. -/
def literalBody : Reader (List Char)
  | [] => none
  | '\'' :: rest => some ([], rest)
  | c :: rest =>
    if isPrintable c then (literalBody rest).map fun (text, left) => (c :: text, left) else none

/-- The characters behind all space and new lines. A carriage return counts only as a part of a new
line. -/
def skipLines : List Char → List Char
  | '\n' :: rest => skipLines rest
  | '\r' :: '\n' :: rest => skipLines rest
  | c :: rest => if isSpace c then skipLines rest else c :: rest
  | [] => []

/-- A backslash at the end of a line takes away the white space up to the next character. -/
def lineContinuation? (cs : List Char) : Option (List Char) :=
  (newline? (skipSpaces cs)).map skipLines

/-- Up to two quotes may stand in front of the three that close a text. -/
def closing? (quote : Char) : List Char → Option (List Char × List Char)
  | a :: b :: c :: rest =>
    if a = quote ∧ b = quote ∧ c = quote then
      match rest with
      | d :: e :: rest' =>
        if d = quote ∧ e = quote then some ([quote, quote], rest')
        else if d = quote then some ([quote], e :: rest')
        else some ([], rest)
      | [d] => if d = quote then some ([quote], []) else some ([], rest)
      | [] => some ([], [])
    else none
  | _ => none

theorem length_skipLines_le (cs : List Char) : (skipLines cs).length ≤ cs.length := by
  fun_induction skipLines cs with
  | case1 rest ih =>
    simp only [List.length_cons]
    omega
  | case2 rest ih =>
    simp only [List.length_cons]
    omega
  | case3 c rest _ _ _ ih =>
    simp only [List.length_cons]
    omega
  | case4 => exact Nat.le_refl _
  | case5 => exact Nat.le_refl _

theorem length_lineContinuation? {cs rest : List Char} (h : lineContinuation? cs = some rest) :
    rest.length < cs.length := by
  simp only [lineContinuation?, Option.map_eq_some_iff] at h
  obtain ⟨r, hr, rfl⟩ := h
  have h₁ := length_newline? hr
  have h₂ := (List.dropWhile_suffix isSpace (l := cs)).length_le
  have h₃ := length_skipLines_le r
  simp only [skipSpaces] at h₁
  omega

/-- Behind the three opening quotes, up to the three that close. -/
def multilineBasicBody (cs : List Char) : Option (List Char × List Char) :=
  match closing? '"' cs with
  | some closed => some closed
  | none =>
    match cs with
    | [] => none
    | '\\' :: rest =>
      match _h : lineContinuation? rest with
      | some rest' => multilineBasicBody rest'
      | none =>
        match _h' : escape rest with
        | some (c, rest') => (multilineBasicBody rest').map fun (text, left) => (c :: text, left)
        | none => none
    | '\n' :: rest => (multilineBasicBody rest).map fun (text, left) => ('\n' :: text, left)
    | '\r' :: '\n' :: rest =>
      (multilineBasicBody rest).map fun (text, left) => ('\n' :: text, left)
    | c :: rest =>
      if isPrintable c then
        (multilineBasicBody rest).map fun (text, left) => (c :: text, left)
      else none
termination_by cs.length
decreasing_by
  · have := length_lineContinuation? _h
    simp only [List.length_cons]
    omega
  · have := length_escape _h'
    simp only [List.length_cons]
    omega
  all_goals simp only [List.length_cons]
  all_goals omega

/-- Behind the three opening apostrophes, up to the three that close. -/
def multilineLiteralBody (cs : List Char) : Option (List Char × List Char) :=
  match closing? '\'' cs with
  | some closed => some closed
  | none =>
    match cs with
    | [] => none
    | '\n' :: rest => (multilineLiteralBody rest).map fun (text, left) => ('\n' :: text, left)
    | '\r' :: '\n' :: rest =>
      (multilineLiteralBody rest).map fun (text, left) => ('\n' :: text, left)
    | c :: rest =>
      if isPrintable c then
        (multilineLiteralBody rest).map fun (text, left) => (c :: text, left)
      else none

/-- A new line right behind the opening of a text on several lines is no part of it. -/
def skipFirstNewline (cs : List Char) : List Char := (newline? cs).getD cs

/-- A text in one of its four forms. -/
def text? : Reader (List Char)
  | '"' :: '"' :: '"' :: rest => multilineBasicBody (skipFirstNewline rest)
  | '"' :: rest => basicBody rest
  | '\'' :: '\'' :: '\'' :: rest => multilineLiteralBody (skipFirstNewline rest)
  | '\'' :: rest => literalBody rest
  | _ => none

end Patchbay.Toml
