/-!
Directed graphs whose vertices and edges stand in an order, and the depth-first walk on them, which
heeds it: a stack whose top is entered first, and marks for the vertices that were discovered and
for those that were left for good.
-/
namespace Patchbay

structure Digraph (α : Type) where
  vertices : List α
  edges : List (α × α)

namespace Digraph

/-- Vertices in the order in which a walk came upon them and in the order in which it left them. -/
structure Marks (α : Type) where
  discovered : List α
  finished : List α

namespace Marks
variable {α : Type}

def empty : Marks α := ⟨[], []⟩

def discover (m : Marks α) (v : α) : Marks α := { m with discovered := m.discovered ++ [v] }

@[simp] theorem discovered_discover (m : Marks α) (v : α) :
    (m.discover v).discovered = m.discovered ++ [v] := rfl

@[simp] theorem finished_discover (m : Marks α) (v : α) : (m.discover v).finished = m.finished := rfl

/-- A vertex is left once. -/
def finish [DecidableEq α] (m : Marks α) (v : α) : Marks α :=
  if v ∈ m.finished then m else { m with finished := m.finished ++ [v] }

@[simp] theorem discovered_finish [DecidableEq α] (m : Marks α) (v : α) :
    (m.finish v).discovered = m.discovered := by
  unfold finish; split <;> rfl

end Marks

variable {α : Type}

def empty : Digraph α := ⟨[], []⟩

def addVertex (g : Digraph α) (v : α) : Digraph α := { g with vertices := g.vertices ++ [v] }

@[simp] theorem vertices_addVertex (g : Digraph α) (v : α) :
    (g.addVertex v).vertices = g.vertices ++ [v] := rfl

@[simp] theorem edges_addVertex (g : Digraph α) (v : α) : (g.addVertex v).edges = g.edges := rfl

variable [DecidableEq α]

/-- Puts an edge before the others, unless it is there. -/
def addEdge (g : Digraph α) (source target : α) : Digraph α :=
  if (source, target) ∈ g.edges then g else { g with edges := (source, target) :: g.edges }

@[simp] theorem vertices_addEdge (g : Digraph α) (v w : α) :
    (g.addEdge v w).vertices = g.vertices := by
  unfold addEdge; split <;> rfl

@[simp] theorem mem_edges_addEdge {g : Digraph α} {v w : α} {e : α × α} :
    e ∈ (g.addEdge v w).edges ↔ e = (v, w) ∨ e ∈ g.edges := by
  unfold addEdge
  split
  · next h => exact ⟨.inr, fun he => he.elim (fun he => he ▸ h) id⟩
  · simp

def ensureVertex (g : Digraph α) (v : α) : Digraph α := if v ∈ g.vertices then g else g.addVertex v

/-- Puts in an edge, and its ends if they are not there. -/
def insertEdge (g : Digraph α) (source target : α) : Digraph α :=
  ((g.ensureVertex source).ensureVertex target).addEdge source target

/-- Takes out an edge. Its ends stay. -/
def removeEdge (g : Digraph α) (source target : α) : Digraph α :=
  { g with edges := g.edges.erase (source, target) }

theorem insertEdge_of_mem {g : Digraph α} {v w : α} (hv : v ∈ g.vertices) (hw : w ∈ g.vertices) :
    g.insertEdge v w = g.addEdge v w := by
  have hensure : g.ensureVertex v = g := if_pos hv
  rw [insertEdge, hensure, ensureVertex, if_pos hw]

theorem removeEdge_addEdge {g : Digraph α} {v w : α} (h : (v, w) ∉ g.edges) :
    (g.addEdge v w).removeEdge v w = g := by
  simp [addEdge, removeEdge, h]

/-- The ends of the edges that leave `v`, in the order of the edges. -/
def successors (g : Digraph α) (v : α) : List α :=
  (g.edges.filter (·.1 = v)).map (·.2)

/-- The starts of the edges that enter `v`, in the order of the edges. -/
def predecessors (g : Digraph α) (v : α) : List α :=
  (g.edges.filter (·.2 = v)).map (·.1)

@[simp] theorem mem_successors {g : Digraph α} {v w : α} :
    w ∈ g.successors v ↔ (v, w) ∈ g.edges := by
  simp [successors]

@[simp] theorem mem_predecessors {g : Digraph α} {v w : α} :
    w ∈ g.predecessors v ↔ (w, v) ∈ g.edges := by
  simp [predecessors]

def undiscovered (g : Digraph α) (m : Marks α) : List α :=
  g.vertices.filter (· ∉ m.discovered)

theorem undiscovered_discover_lt {g : Digraph α} {m : Marks α} {v : α}
    (hv : v ∈ g.vertices) (hm : v ∉ m.discovered) :
    (g.undiscovered (m.discover v)).length < (g.undiscovered m).length := by
  have key : g.undiscovered (m.discover v) = (g.undiscovered m).filter (· ≠ v) := by
    simp only [undiscovered, List.filter_filter, Marks.discovered_discover, List.mem_append,
      List.mem_singleton]
    congr 1
    funext w
    by_cases h : w = v <;> simp [h]
  rw [key]
  exact List.length_filter_lt_length_iff_exists.2
    ⟨v, by simp [undiscovered, hv, hm], by simp⟩

@[simp] theorem undiscovered_finish (g : Digraph α) (m : Marks α) (v : α) :
    g.undiscovered (m.finish v) = g.undiscovered m := by
  simp [undiscovered]

/-- Walks until the stack is empty. An undiscovered vertex on top stays there under its
undiscovered successors, so that it is left after them. -/
def explore (g : Digraph α) (m : Marks α) (stack : List α) : Marks α :=
  match stack with
  | [] => m
  | v :: rest =>
    if _h : v ∈ g.vertices ∧ v ∉ m.discovered then
      let entered := m.discover v
      g.explore entered ((g.successors v).filter (· ∉ entered.discovered) ++ v :: rest)
    else g.explore (m.finish v) rest
termination_by ((g.undiscovered m).length, stack.length)
decreasing_by
  · exact Prod.Lex.left _ _ (undiscovered_discover_lt _h.1 _h.2)
  · rw [undiscovered_finish]
    exact Prod.Lex.right _ (by simp)

/-- The vertices reachable from the roots, each behind those that it leads to; with the roots and
the edges of a vertex taken in order. -/
def postorder (g : Digraph α) (roots : List α) : List α :=
  (g.explore .empty roots).finished

/-- The first vertex that the walk discovers with an edge to itself. -/
def selfLoop? (g : Digraph α) : Option α :=
  (g.explore .empty g.vertices).discovered.find? fun v => (v, v) ∈ g.edges

end Digraph

end Patchbay
