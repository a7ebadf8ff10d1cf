/-!
Character classes: white space, control characters and the characters of an identifier.
-/
namespace Patchbay.Text

/-- The characters with the Unicode property White_Space. -/
def isBlank (c : Char) : Bool :=
  let n := c.toNat
  (0x09 ≤ n && n ≤ 0x0d) || n = 0x20 || n = 0x85 || n = 0xa0 || n = 0x1680 ||
    (0x2000 ≤ n && n ≤ 0x200a) || n = 0x2028 || n = 0x2029 || n = 0x202f || n = 0x205f || n = 0x3000

/-- The characters of the Unicode category Cc. -/
def isControl (c : Char) : Bool :=
  c.toNat < 0x20 || (0x7f ≤ c.toNat && c.toNat ≤ 0x9f)

/-- ASCII letters and digits. -/
def isWordChar (c : Char) : Bool := c.isAlphanum

/-- A letter or `_`, then letters, digits and `_`, all ASCII. -/
def isIdentifier : List Char → Bool
  | [] => false
  | c :: rest => (c.isAlpha || c = '_') && rest.all fun d => isWordChar d || d = '_'

theorem isWordChar_or_of_isIdentifier {name : List Char} (h : isIdentifier name) :
    ∀ c ∈ name, isWordChar c ∨ c = '_' := by
  cases name with
  | nil => simp
  | cons d ds =>
    simp only [isIdentifier, Bool.and_eq_true, Bool.or_eq_true, decide_eq_true_eq,
      List.all_eq_true] at h
    intro c hc
    rcases List.mem_cons.1 hc with rfl | hc
    · exact h.1.imp (fun h => by simp [isWordChar, Char.isAlphanum, h]) id
    · exact h.2 c hc

end Patchbay.Text
