import Patchbay.Code.Basic
import Patchbay.Digraph.Sort
import Patchbay.Settings.Basic
import Patchbay.Text.Visible

/-!
Helper units: named pieces of code that a program holds once, each after the units that it needs.
A catalogue gives the units by reference. Two references may carry one name; the unit that is met
first under a name is kept and stands for the others. A listing shows units with their names and
the names of their needs.
-/
namespace Patchbay

structure HelperUnit (ι : Type) where
  name : String
  needs : List ι
  body : Settings → Code

/-- Finitely many names bound a catalogue, though not the number of its references. -/
structure Catalogue (ι : Type) where
  unit : ι → HelperUnit ι
  names : List String
  name_mem : ∀ i, (unit i).name ∈ names

namespace Catalogue
variable {ι : Type}

def name (c : Catalogue ι) (i : ι) : String := (c.unit i).name

def needs (c : Catalogue ι) (i : ι) : List ι := (c.unit i).needs

/-- The kept units in the order in which they were met, with an edge from each unit to the kept
unit for each of its needs. -/
structure Roster (ι : Type) where
  units : List ι
  edges : List (ι × ι)

namespace Roster

def empty : Roster ι := ⟨[], []⟩

def add (r : Roster ι) (i : ι) : Roster ι := { r with units := r.units ++ [i] }

def link (r : Roster ι) (source target : ι) : Roster ι :=
  { r with edges := r.edges ++ [(source, target)] }

def linkFrom (r : Roster ι) (source? : Option ι) (target : ι) : Roster ι :=
  match source? with
  | some source => r.link source target
  | none => r

def graph (r : Roster ι) : Digraph ι := ⟨r.units, r.edges⟩

@[simp] theorem units_add (r : Roster ι) (i : ι) : (r.add i).units = r.units ++ [i] := rfl
@[simp] theorem units_link (r : Roster ι) (i j : ι) : (r.link i j).units = r.units := rfl
@[simp] theorem units_linkFrom (r : Roster ι) (i? : Option ι) (j : ι) :
    (r.linkFrom i? j).units = r.units := by cases i? <;> rfl

end Roster

/-- The kept unit of a name. -/
def kept? (c : Catalogue ι) (r : Roster ι) (name : String) : Option ι :=
  r.units.find? (c.name · = name)

/-- What is left to do on the way through requests and needs. -/
inductive Task (ι : Type) where
  /-- Come upon a unit, as a need of `parent` or as a request. -/
  | meet (parent : Option ι) (unit : ι)
  /-- Note that a unit needs another, whose own needs have been met. -/
  | link (source target : ι)

def unmet (c : Catalogue ι) (r : Roster ι) : List String :=
  c.names.filter fun n => (c.kept? r n).isNone

theorem unmet_add_lt {c : Catalogue ι} {r : Roster ι} {i : ι}
    (h : c.kept? r (c.name i) = none) :
    (c.unmet (r.add i)).length < (c.unmet r).length := by
  have key : c.unmet (r.add i) = (c.unmet r).filter (· ≠ c.name i) := by
    simp only [unmet, List.filter_filter]
    congr 1
    funext n
    simp only [kept?, Roster.units_add, List.find?_append]
    by_cases hn : n = c.name i
    · simp [hn]
    · have : c.name i ≠ n := fun e => hn e.symm
      simp [hn, this]
  rw [key]
  exact List.length_filter_lt_length_iff_exists.2
    ⟨c.name i, List.mem_filter.2 ⟨c.name_mem i, by simp [h]⟩, by simp⟩

@[simp] theorem unmet_link (c : Catalogue ι) (r : Roster ι) (i j : ι) :
    c.unmet (r.link i j) = c.unmet r := rfl

@[simp] theorem unmet_linkFrom (c : Catalogue ι) (r : Roster ι) (i? : Option ι) (j : ι) :
    c.unmet (r.linkFrom i? j) = c.unmet r := by cases i? <;> rfl

/-- Walks through the tasks in order; the needs of a unit that is met for the first time come
before all that was left to do. -/
def register (c : Catalogue ι) (r : Roster ι) (tasks : List (Task ι)) : Roster ι :=
  match tasks with
  | [] => r
  | .link source target :: rest => c.register (r.link source target) rest
  | .meet parent i :: rest =>
    match _h : c.kept? r (c.name i) with
    | some j => c.register (r.linkFrom parent j) rest
    | none =>
      c.register (r.add i)
        ((c.needs i).map (.meet (some i)) ++ (parent.map (.link · i)).toList ++ rest)
termination_by ((c.unmet r).length, tasks.length)
decreasing_by
  · rw [unmet_link]; exact Prod.Lex.right _ (by simp)
  · rw [unmet_linkFrom]; exact Prod.Lex.right _ (by simp)
  · exact Prod.Lex.left _ _ (unmet_add_lt _h)

/-- The units met on the way through the requests. -/
def roster (c : Catalogue ι) (requests : List ι) : Roster ι :=
  c.register .empty (requests.map (.meet none))

/-- All units that the requests lead to, each once and after its needs; in the order of the
requests, as far as the needs leave a choice. -/
def resolve [DecidableEq ι] (c : Catalogue ι) (requests : List ι) : Except Error (List ι) :=
  let r := c.roster requests
  match r.graph.sort with
  | .error i => .error (.dependencyCycle (c.name i))
  | .ok _ => .ok (r.graph.postorder (requests.filterMap fun i => c.kept? r (c.name i)))

def listedUnit (c : Catalogue ι) (i : ι) : String :=
  let name := Text.listed (c.name i)
  let needs := Text.listedAll ((c.needs i).map c.name)
  s!"GlobalCode \x7b name: {name}, dependencies: [{needs}] \x7d"

def listing (c : Catalogue ι) (units : List ι) : String :=
  "[" ++ ", ".intercalate (units.map c.listedUnit) ++ "]"

end Catalogue

end Patchbay
