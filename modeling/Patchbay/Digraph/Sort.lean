import Patchbay.Digraph.Basic

/-!
Topological order. The order is the reverse of the one in which a walk over all vertices leaves
them. It is checked by walks backwards along the edges, from each vertex in that order: one that
comes to a second vertex has come to one on a cycle.
-/
namespace Patchbay.Digraph
variable {α : Type} [DecidableEq α]

/-- The next vertex of a walk backwards along the edges, and the stack behind it. Vertices that were
seen before are passed over. -/
def retreat? (g : Digraph α) (seen : List α) : List α → Option (α × List α)
  | [] => none
  | v :: stack =>
    if v ∈ seen then g.retreat? seen stack
    else some (v, (g.predecessors v).filter (· ∉ v :: seen) ++ stack)

/-- Walks backwards from one vertex of the list after the other, and sees no vertex twice. Gives the
second vertex of the first walk that has one. -/
def misplaced? (g : Digraph α) (seen : List α) : List α → Option α
  | [] => none
  | root :: rest =>
    match g.retreat? seen [root] with
    | none => g.misplaced? seen rest
    | some (v, stack) =>
      match g.retreat? (v :: seen) stack with
      | none => g.misplaced? (v :: seen) rest
      | some (w, _) => some w

/-- All vertices, each before those that it leads to, or a vertex on a cycle. -/
def sort (g : Digraph α) : Except α (List α) :=
  match g.selfLoop? with
  | some v => .error v
  | none =>
    let order := (g.postorder g.vertices).reverse
    match g.misplaced? [] order with
    | some v => .error v
    | none => .ok order

def isAcyclic (g : Digraph α) : Bool := g.sort matches .ok _

end Patchbay.Digraph
