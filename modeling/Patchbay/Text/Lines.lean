import Patchbay.Text.Blank

/-!
Lines of a text: cut at line feeds, freed of white space at the end, blank ones left out, and moved
left by the indentation that all of them share. Indentation is measured in bytes of UTF-8, so a cut
may fall inside a character; then there is no result.
-/
namespace Patchbay.Text

def trimEnd (cs : List Char) : List Char := (cs.reverse.dropWhile isBlank).reverse

/-- The lines that hold more than white space. -/
def lines (text : List Char) : List (List Char) :=
  ((text.splitOn '\n').map trimEnd).filter (!·.isEmpty)

def byteLength (cs : List Char) : Nat := cs.foldr (fun c n => c.utf8Size + n) 0

def indentation (line : List Char) : Nat := byteLength (line.takeWhile isBlank)

/-- The indentation shared by all lines. -/
def sharedIndentation (ls : List (List Char)) : Nat := (ls.map indentation).min?.getD 0

/-- What is left behind the first `n` bytes. -/
def dropBytes : Nat → List Char → Option (List Char)
  | 0, cs => some cs
  | _ + 1, [] => none
  | n + 1, c :: cs => if c.utf8Size ≤ n + 1 then dropBytes (n + 1 - c.utf8Size) cs else none

/-- The lines of a text without their shared indentation. -/
def dedent (text : List Char) : Option (List (List Char)) :=
  let ls := lines text
  ls.mapM (dropBytes (sharedIndentation ls))

@[simp] theorem dropBytes_zero (cs : List Char) : dropBytes 0 cs = some cs := by
  unfold dropBytes; rfl

@[simp] theorem byteLength_nil : byteLength [] = 0 := rfl

@[simp] theorem byteLength_cons (c : Char) (cs : List Char) :
    byteLength (c :: cs) = c.utf8Size + byteLength cs := rfl

theorem dropBytes_byteLength_append (cs ds : List Char) :
    dropBytes (byteLength cs) (cs ++ ds) = some ds := by
  induction cs with
  | nil => simp
  | cons c cs ih =>
    have hc := c.utf8Size_pos
    obtain ⟨k, hk⟩ : ∃ k, c.utf8Size + byteLength cs = k + 1 := ⟨_, (Nat.succ_pred (by omega)).symm⟩
    simp only [byteLength_cons, List.cons_append, hk, dropBytes]
    rw [if_pos (by omega), show k + 1 - c.utf8Size = byteLength cs by omega, ih]

end Patchbay.Text
