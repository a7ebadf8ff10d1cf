import Patchbay.Proofs.Delivery.Plain
import Patchbay.Proofs.Node.Checked

/-!
Deliveries with every access by number checked. The tasks of a send name nodes that are there, as
long as the first message goes to such a node and connections lead to such nodes; so with the checks
a send takes the steps that it takes without.
-/
namespace Patchbay

open Traffic

/-- The node under a number, which must be there. -/
def Traffic.checkedNode (t : Traffic) (n : Nat) : Except Breach Node :=
  match t.nodes[n]? with
  | some node => .ok node
  | none => .error (.node n)

namespace Moment

/-- A node begins to handle a message, with the accesses to arrays checked. -/
def checkedHandling (w : Wiring) (rate : Float) (t : Traffic) (node : Node) (d : Delivery)
    (rest : List Task) : Except Breach Moment := do
  let r ← node.checkedReceive d.inlet d.message rate t.tables
  let emitted : List Sent := r.sent.map fun (outlet, m) => ⟨d.target, outlet, m⟩
  return ⟨{ t with nodes := t.nodes.set d.target r.node, tables := r.tables },
    (emitted.flatMap w.emission).map .act ++ .finish d.target :: rest⟩

/-- The next step of a send, if there is one. The node that the next task is about must be there. -/
def advance (w : Wiring) (rate : Float) : Moment → Except Breach (Option (Event × Moment))
  | ⟨_, []⟩ => .ok none
  | ⟨t, .act (.record s) :: rest⟩ => do
    let _ ← t.checkedNode s.node
    return some (.sent s, ⟨t.record s, rest⟩)
  | ⟨t, .act (.deliver d) :: rest⟩ => do
    let node ← t.checkedNode d.target
    if w.inlet? d.target d.inlet = some .message then
      if d.target ∈ t.busy then
        if t.queued < maxWaiting then return some (.queued d, ⟨t.enqueue d, rest⟩)
        else return some (.dropped d, ⟨t, rest⟩)
      else
        let begun ← checkedHandling w rate (t.enter d.target) node d rest
        return some (.handled d, begun)
    else return some (.ignored d, ⟨t, rest⟩)
  | ⟨t, .finish n :: rest⟩ => .ok (some (.finished n, ⟨t, .drain n :: rest⟩))
  | ⟨t, .drain n :: rest⟩ => do
    let node ← t.checkedNode n
    match takeWaiting n t.waiting with
    | none => return some (.returned n, ⟨t.leave, rest⟩)
    | some (d, others) =>
      let begun ← checkedHandling w rate (t.dequeue others) node d rest
      return some (.resumed d, begun)

/-- A number of steps, or as many as there are. -/
def advanceBy (w : Wiring) (rate : Float) : Nat → Moment → Except Breach Moment
  | 0, c => .ok c
  | steps + 1, c => do
    match ← c.advance w rate with
    | none => return c
    | some (_, next) => next.advanceBy w rate steps

end Moment

/-- The node that a task is about. -/
def Task.node : Task → Nat
  | .act (.record s) => s.node
  | .act (.deliver d) => d.target
  | .finish n => n
  | .drain n => n

variable {w : Wiring} {rate : Float} {t : Traffic} {a b : Moment} {e : Event}

theorem Moment.checkedHandling_eq (w : Wiring) (rate : Float) (t : Traffic) (node : Node)
    (d : Delivery) (rest : List Task) :
    checkedHandling w rate t node d rest = .ok (.handling w rate t node d rest) := by
  simp only [checkedHandling, Moment.handling, Node.checkedReceive_eq, actions_handle]
  rfl

/-- What a node that handles a message brings about concerns that node and those that it feeds. -/
theorem Moment.node_of_mem_handling {node : Node} {d : Delivery} {rest : List Task} {task : Task}
    (h : task ∈ (Moment.handling w rate t node d rest).tasks) :
    task.node = d.target ∨ w.Feeds d.target task.node ∨ task ∈ rest := by
  rcases List.mem_append.1 h with h | h
  · obtain ⟨action, haction, rfl⟩ := List.mem_map.1 h
    cases action with
    | record s =>
      simp only [handle, List.mem_flatMap, List.mem_cons, List.mem_map, reduceCtorEq, and_false,
        exists_false, or_false, Action.record.injEq] at haction
      obtain ⟨out, -, rfl⟩ := haction
      exact .inl rfl
    | deliver e => exact .inr (.inl (feeds_of_mem_handle haction))
  · rcases List.mem_cons.1 h with rfl | h
    · exact .inl rfl
    · exact .inr (.inr h)

/-- The nodes of a moment are there: one for each placement, and those that the tasks are about. -/
structure Moment.Addressed (w : Wiring) (c : Moment) : Prop where
  staffed : c.traffic.Staffed w
  lt_size : ∀ n ∈ c.tasks.map Task.node, n < w.size

namespace Moment.Addressed

variable {rest : List Task} {task : Task}

theorem tail (h : Addressed w ⟨t, task :: rest⟩) {u : Traffic} (hu : u.Staffed w) :
    Addressed w ⟨u, rest⟩ :=
  ⟨hu, fun n hn => h.lt_size n (List.mem_cons_of_mem _ hn)⟩

theorem handling (hw : ∀ c ∈ w.connections, c.target < w.size) {node : Node} {d : Delivery}
    (h : Addressed w ⟨t, .finish d.target :: rest⟩) :
    Addressed w (.handling w rate t node d rest) where
  staffed := h.staffed.handle node d
  lt_size n hn := by
    obtain ⟨task, htask, rfl⟩ := List.mem_map.1 hn
    rcases node_of_mem_handling htask with hsame | ⟨c, hc, -, -, htarget⟩ | hrest
    · rw [hsame]
      exact h.lt_size _ List.mem_cons_self
    · exact htarget ▸ hw c hc
    · exact h.lt_size task.node (List.mem_map_of_mem (List.mem_cons_of_mem _ hrest))

theorem step (hw : ∀ c ∈ w.connections, c.target < w.size) (h : a.Addressed w)
    (hs : Step w rate a e b) : b.Addressed w := by
  cases hs with
  | record => exact h.tail (h.staffed.record _)
  | ignore | drop | leave => exact h.tail h.staffed
  | queue => exact h.tail (h.staffed.enqueue _)
  | handle hinlet hidle hnode => exact handling hw ⟨h.staffed, h.lt_size⟩
  | finish => exact ⟨h.staffed, h.lt_size⟩
  | resume hwait hnode =>
    obtain rfl := target_of_takeWaiting hwait
    exact handling hw ⟨h.staffed, h.lt_size⟩

theorem checkedNode (h : Addressed w ⟨t, task :: rest⟩) :
    ∃ node, t.checkedNode task.node = .ok node ∧ t.nodes[task.node]? = some node := by
  obtain ⟨node, hnode⟩ := h.staffed.exists_node (h.lt_size task.node List.mem_cons_self)
  exact ⟨node, by simp only [Traffic.checkedNode, hnode], hnode⟩

/-- No check fails where the nodes are there. -/
theorem advance_of_step (h : a.Addressed w) (hs : Step w rate a e b) :
    a.advance w rate = .ok (some (e, b)) := by
  cases hs with
  | record =>
    obtain ⟨node, hchecked, -⟩ := h.checkedNode
    simp only [Task.node] at hchecked
    simp only [advance, hchecked, bind, Except.bind, pure, Except.pure]
  | ignore hinlet =>
    obtain ⟨node, hchecked, -⟩ := h.checkedNode
    simp only [Task.node] at hchecked
    simp only [advance, hchecked, bind, Except.bind, pure, Except.pure, hinlet, ↓reduceIte]
  | handle hinlet hidle hnode =>
    simp only [advance, Traffic.checkedNode, hnode, bind, Except.bind, pure, Except.pure, hinlet,
      hidle, ↓reduceIte, checkedHandling_eq]
  | queue hinlet hbusy hroom =>
    obtain ⟨node, hchecked, -⟩ := h.checkedNode
    simp only [Task.node] at hchecked
    simp only [advance, hchecked, bind, Except.bind, pure, Except.pure, hinlet, hbusy, hroom,
      ↓reduceIte]
  | drop hinlet hbusy hfull =>
    obtain ⟨node, hchecked, -⟩ := h.checkedNode
    simp only [Task.node] at hchecked
    simp only [advance, hchecked, bind, Except.bind, pure, Except.pure, hinlet, hbusy,
      Nat.not_lt.2 hfull, ↓reduceIte]
  | finish => rfl
  | resume hwait hnode =>
    simp only [advance, Traffic.checkedNode, hnode, bind, Except.bind, pure, Except.pure, hwait,
      checkedHandling_eq]
  | leave hnone =>
    obtain ⟨node, hchecked, -⟩ := h.checkedNode
    simp only [Task.node] at hchecked
    simp only [advance, hchecked, bind, Except.bind, pure, Except.pure, hnone]

/-- With as many steps as a run to the end of a send has, or more, the checked steps come to the
same end. -/
theorem advanceBy_of_run (hw : ∀ c ∈ w.connections, c.target < w.size) {es : List Event}
    (h : a.Addressed w) (hrun : Run w rate a es b) (hdone : b.tasks = []) {steps : Nat}
    (hsteps : es.length ≤ steps) : a.advanceBy w rate steps = .ok b := by
  induction steps generalizing a es with
  | zero =>
    obtain rfl := List.eq_nil_of_length_eq_zero (Nat.le_zero.1 hsteps)
    rcases hrun.cases_head with ⟨-, rfl⟩ | ⟨_, _, _, he, _⟩
    · rfl
    · simp at he
  | succ steps ih =>
    rcases hrun.cases_head with ⟨rfl, rfl⟩ | ⟨e, es', c, rfl, hfirst, hrest⟩
    · obtain ⟨t, tasks⟩ := a
      obtain rfl : tasks = [] := hdone
      rfl
    · have hrec := ih (h.step hw hfirst) hrest (Nat.le_of_succ_le_succ hsteps)
      simp only [advanceBy, h.advance_of_step hfirst, bind, Except.bind, hrec]

end Moment.Addressed

end Patchbay
