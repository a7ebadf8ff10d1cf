import Patchbay.Template.Segment

/-!
Templates: lists of segments, each of which turns an incoming message into an outgoing one. A box
is declared with atoms that commas divide into templates; a `set` message puts a single template in
their place.
-/
namespace Patchbay

structure Template where
  segments : List Segment

namespace Template

/-- One segment for each atom. -/
def ofAtoms (atoms : List Atom) : Except Error Template := do
  let segments ← atoms.mapM Segment.ofAtom
  return ⟨segments⟩

/-- As `ofAtoms`, but the selector `symbol` makes a template of one segment: the symbol that
follows it, or else the empty symbol. What follows further is not looked at. -/
def ofAtomsWithSelector (atoms : List Atom) : Except Error Template :=
  match atoms with
  | first :: rest =>
    if first.isSymbol "symbol" then
      match rest with
      | .symbol s :: _ => (Segment.ofSymbol s).map fun segment => ⟨[segment]⟩
      | _ => .ok ⟨[.literal (.symbol "")]⟩
    else ofAtoms atoms
  | [] => ofAtoms atoms

/-- The number of atoms that a message needs. -/
def arity (t : Template) : Nat := t.segments.foldr (fun s n => max s.maxPlaceholder n) 0

def evaluate (t : Template) (incoming : Message) : Except OutOfRange Message :=
  t.segments.mapM (Segment.evaluate incoming)

end Template

/-- The templates of a box. There is always one. -/
structure Templates where
  first : Template
  others : List Template

namespace Templates

def toList (ts : Templates) : List Template := ts.first :: ts.others

def single (t : Template) : Templates := ⟨t, []⟩

def results (ts : Templates) (incoming : Message) : List (Except OutOfRange Message) :=
  ts.toList.map (·.evaluate incoming)

/-- The messages of those templates that the incoming message is long enough for. -/
def evaluate (ts : Templates) (incoming : Message) : List Message :=
  (ts.results incoming).filterMap Except.toOption

/-- The atoms between the commas. -/
def groups (atoms : List Atom) : List (List Atom) := atoms.splitOnP (·.isSymbol ",")

/-- One template for each group; the selector `symbol` counts in the first. -/
def ofGroups : List (List Atom) → Except Error Templates
  | [] => (Template.ofAtomsWithSelector []).map single
  | first :: others => do
    let first ← Template.ofAtomsWithSelector first
    let others ← others.mapM Template.ofAtoms
    return ⟨first, others⟩

/-- Reads the arguments of a declaration. -/
def ofAtoms (atoms : List Atom) : Except Error Templates := ofGroups (groups atoms)

@[simp] theorem toList_single (t : Template) : (single t).toList = [t] := rfl

end Templates

/-- What a message does to the templates of a box. -/
inductive SetOutcome where
  /-- It is no `set` message. -/
  | notSet
  /-- Its payload takes the place of all templates. -/
  | applied (templates : Templates)
  /-- Its payload is no template. -/
  | rejected (error : Error)

/-- Reads `set` and a payload, in which commas are symbols like others. -/
def SetOutcome.ofMessage : Message → SetOutcome
  | first :: payload =>
    if first.isSymbol "set" then
      match Template.ofAtomsWithSelector payload with
      | .ok t => .applied (.single t)
      | .error e => .rejected e
    else .notSet
  | [] => .notSet

end Patchbay
