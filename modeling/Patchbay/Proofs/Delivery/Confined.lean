import Patchbay.Proofs.Delivery.Busy
import Patchbay.Proofs.Delivery.Checked
import Patchbay.Proofs.Delivery.Kinds
import Patchbay.Proofs.Node.Table

/-!
The reach of a delivery. All that follows from a message concerns the nodes that can be reached from
its target along message connections; any other node keeps its state and its queue throughout. A
cell of an array changes only where a node that writes arrays takes up a number for it.
-/
namespace Patchbay

open Traffic Relation

variable {w : Wiring} {rate : Float} {origin n : Nat} {start t : Traffic} {a b : Moment}
  {e : Event} {es : List Event} {d : Delivery} {task : Task} {rest : List Task}

/-- The tasks concern nodes ahead of the origin, and the other nodes are as at the start. -/
structure Moment.Confined (w : Wiring) (origin : Nat) (start : Traffic) (c : Moment) : Prop where
  tasks : ∀ task ∈ c.tasks, ReflTransGen w.Feeds origin task.node
  nodes : ∀ n, ¬ ReflTransGen w.Feeds origin n → c.traffic.nodes[n]? = start.nodes[n]?
  waiting : ∀ n, ¬ ReflTransGen w.Feeds origin n → c.traffic.waitingFor n = start.waitingFor n
  kinds : c.traffic.nodes.map (·.kind) = start.nodes.map (·.kind)

namespace Moment.Confined

theorem head (h : Confined w origin start ⟨t, task :: rest⟩) :
    ReflTransGen w.Feeds origin task.node := h.tasks task List.mem_cons_self

theorem tail (h : Confined w origin start ⟨t, task :: rest⟩) :
    Confined w origin start ⟨t, rest⟩ :=
  ⟨fun task htask => h.tasks task (List.mem_cons_of_mem _ htask), h.nodes, h.waiting, h.kinds⟩

/-- A task about the same node may stand in front. -/
theorem retask (h : Confined w origin start ⟨t, task :: rest⟩) (other : Task)
    (hnode : other.node = task.node) : Confined w origin start ⟨t, other :: rest⟩ :=
  ⟨List.forall_mem_cons.2 ⟨hnode ▸ h.head, h.tail.tasks⟩, h.nodes, h.waiting, h.kinds⟩

theorem handling {node : Node} (h : Confined w origin start ⟨t, .finish d.target :: rest⟩)
    (hnode : t.nodes[d.target]? = some node) :
    Confined w origin start (.handling w rate t node d rest) := by
  have htarget : ReflTransGen w.Feeds origin d.target := h.head
  have hkinds : (Moment.handling w rate t node d rest).traffic.nodes.map (·.kind) =
      t.nodes.map (·.kind) := kinds_handle (w := w) hnode d rfl
  refine ⟨fun task htask => ?_, fun n hn => ?_, h.waiting, hkinds.trans h.kinds⟩
  · rcases node_of_mem_handling htask with hsame | hfeed | hrest
    · rwa [hsame]
    · exact htarget.tail hfeed
    · exact h.tail.tasks task hrest
  · have hne : d.target ≠ n := fun he => hn (he ▸ htarget)
    calc (t.nodes.set d.target _)[n]? = t.nodes[n]? := List.getElem?_set_ne hne
      _ = start.nodes[n]? := h.nodes n hn

theorem record {s : Sent} (h : Confined w origin start ⟨t, .act (.record s) :: rest⟩) :
    Confined w origin start ⟨t.record s, rest⟩ := by
  obtain ⟨htasks, hnodes, hwaiting, hkinds⟩ := h.tail
  exact ⟨htasks, by simpa using hnodes, by simpa using hwaiting, by simpa using hkinds⟩

theorem enqueue (h : Confined w origin start ⟨t, .act (.deliver d) :: rest⟩) :
    Confined w origin start ⟨t.enqueue d, rest⟩ := by
  have htarget : ReflTransGen w.Feeds origin d.target := h.head
  obtain ⟨htasks, hnodes, hwaiting, hkinds⟩ := h.tail
  refine ⟨htasks, by simpa using hnodes, fun n hn => ?_, by simpa using hkinds⟩
  have hne : d.target ≠ n := fun he => hn (he ▸ htarget)
  simpa [waitingFor_enqueue, hne] using hwaiting n hn

theorem dequeue {others : List Delivery} (h : Confined w origin start ⟨t, .drain n :: rest⟩)
    (hwait : takeWaiting n t.waiting = some (d, others)) :
    Confined w origin start ⟨t.dequeue others, .finish n :: rest⟩ where
  tasks := (h.retask (.finish n) rfl).tasks
  nodes := h.nodes
  waiting m hm := by
    have hne : m ≠ n := fun he => hm (he ▸ h.head)
    exact (waitingFor_dequeue_of_ne hwait hne).trans (h.waiting m hm)
  kinds := h.kinds

theorem step (h : a.Confined w origin start) (hs : Step w rate a e b) :
    b.Confined w origin start := by
  cases hs with
  | record => exact h.record
  | ignore | drop => exact h.tail
  | @handle t d rest node hinlet hidle hnode =>
    have henter : Confined w origin start ⟨t.enter d.target, .finish d.target :: rest⟩ :=
      ⟨(h.retask (.finish d.target) rfl).tasks, h.nodes, h.waiting, h.kinds⟩
    exact henter.handling hnode
  | queue => exact h.enqueue
  | finish => exact h.retask _ rfl
  | resume hwait hnode =>
    obtain rfl := target_of_takeWaiting hwait
    exact (h.dequeue hwait).handling hnode
  | leave => exact ⟨h.tail.tasks, h.nodes, h.waiting, h.kinds⟩

theorem run (h : a.Confined w origin start) (hr : Run w rate a es b) :
    b.Confined w origin start := by
  induction hr with
  | refl => exact h
  | step _ hs ih => exact ih.step hs

theorem of_delivery (t : Traffic) (d : Delivery) :
    Confined w d.target t ⟨t, [.act (.deliver d)]⟩ where
  tasks task htask := by
    obtain rfl := List.mem_singleton.1 htask
    exact .refl
  nodes _ _ := rfl
  waiting _ _ := rfl
  kinds := rfl

/-- The nodes that begin to handle a message lie ahead of the origin. -/
theorem ahead_of_begun (h : a.Confined w origin start) (hs : Step w rate a e b)
    (he : e = .handled d ∨ e = .resumed d) : ReflTransGen w.Feeds origin d.target := by
  rcases he with rfl | rfl
  · cases hs with
    | handle => exact h.head
  · cases hs with
    | resume hwait _ => exact target_of_takeWaiting hwait ▸ h.head

end Moment.Confined

section Cells

variable {name : String} {i : Nat}

theorem Traffic.tables_handle (w : Wiring) (rate : Float) {node : Node}
    (hnode : t.nodes[d.target]? = some node) : (handle w rate t node d).1.tables = t.tables ∨
    ∃ n declared c x, d = ⟨n, 0, [.float x]⟩ ∧ t.nodes[n]? = some (.tableWrite declared c) ∧
      (handle w rate t node d).1.tables = (c.write t.tables x).2 := by
  rcases node.tables_receive d.inlet d.message rate t.tables with hsame | hwrites
  · exact .inl hsame
  · obtain ⟨declared, c, x, rfl, hinlet, hm, hwrite⟩ := hwrites
    obtain ⟨n, inlet, m⟩ := d
    obtain rfl : inlet = 0 := hinlet
    obtain rfl : m = [.float x] := hm
    exact .inr ⟨n, declared, c, x, rfl, hnode, hwrite⟩

/-- A step leaves the arrays, or a node that writes arrays takes up a number and writes it. -/
theorem Step.tables_cases (hs : Step w rate a e b) : b.traffic.tables = a.traffic.tables ∨
    ∃ n declared c x, (e = .handled ⟨n, 0, [.float x]⟩ ∨ e = .resumed ⟨n, 0, [.float x]⟩) ∧
      a.traffic.nodes[n]? = some (.tableWrite declared c) ∧
      b.traffic.tables = (c.write a.traffic.tables x).2 := by
  cases hs with
  | record => exact .inl (tables_record _)
  | queue => exact .inl (tables_enqueue _)
  | ignore | drop | finish | leave => exact .inl rfl
  | @handle t d rest node hinlet hidle hnode =>
    rcases tables_handle (t := t.enter d.target) w rate hnode with hsame | hwrites
    · exact .inl hsame
    · obtain ⟨n, declared, c, x, rfl, hwriter, hwrite⟩ := hwrites
      exact .inr ⟨n, declared, c, x, .inl rfl, hwriter, hwrite⟩
  | @resume t n rest d others node hwait hnode =>
    obtain rfl := target_of_takeWaiting hwait
    rcases tables_handle (t := t.dequeue others) w rate hnode with hsame | hwrites
    · exact .inl hsame
    · obtain ⟨n, declared, c, x, rfl, hwriter, hwrite⟩ := hwrites
      exact .inr ⟨n, declared, c, x, .inr rfl, hwriter, hwrite⟩

/-- In the course of a run, a node that writes arrays takes up a number while it is bound to the
array and has the index. -/
def Written (w : Wiring) (rate : Float) (first : Moment) (es : List Event) (n : Nat)
    (name : String) (i : Nat) : Prop :=
  ∃ before e after c next declared x, es = before ++ e :: after ∧ Run w rate first before c ∧
    Step w rate c e next ∧ (e = .handled ⟨n, 0, [.float x]⟩ ∨ e = .resumed ⟨n, 0, [.float x]⟩) ∧
    c.traffic.nodes[n]? = some (.tableWrite declared ⟨name, i⟩)

theorem Written.append {first : Moment} (h : Written w rate first es n name i) (more : List Event) :
    Written w rate first (es ++ more) n name i := by
  obtain ⟨before, e, after, c, next, declared, x, rfl, hrest⟩ := h
  exact ⟨before, e, after ++ more, c, next, declared, x, by simp, hrest⟩

theorem Run.size_tables (hr : Run w rate a es b) (name : String) :
    (b.traffic.tables.get? name).map Array.size = (a.traffic.tables.get? name).map Array.size := by
  induction hr with
  | refl => rfl
  | step _ hs ih =>
    rcases hs.tables_cases with hsame | ⟨_, _, c, x, -, -, hwrite⟩
    · rw [hsame, ih]
    · rw [hwrite, c.size_write, ih]

/-- A cell that has changed was written on the way. -/
theorem Run.exists_written (hr : Run w rate a es b)
    (h : b.traffic.tables.cell? name i ≠ a.traffic.tables.cell? name i) :
    ∃ n, Written w rate a es n name i := by
  induction hr with
  | refl => exact absurd rfl h
  | @step b next es e hr hs ih =>
    by_cases hcell : b.traffic.tables.cell? name i = a.traffic.tables.cell? name i
    · -- The cell changes in the last step.
      rw [← hcell] at h
      rcases hs.tables_cases with hsame | ⟨n, declared, c, x, he, hnode, hwrite⟩
      · exact absurd (congrArg (·.cell? name i) hsame) h
      · rcases c.cell?_write b.traffic.tables x name i with hkept | rfl
        · exact absurd ((congrArg (·.cell? name i) hwrite).trans hkept) h
        · exact ⟨n, es, e, [], b, next, declared, x, rfl, hr, hs, he, hnode⟩
    · obtain ⟨n, hn⟩ := ih hcell
      exact ⟨n, hn.append _⟩

namespace Moment.Confined

theorem ahead_of_written (h : a.Confined w origin start) (hwritten : Written w rate a es n name i) :
    ReflTransGen w.Feeds origin n := by
  obtain ⟨before, e, after, c, next, declared, x, -, hr, hs, he, -⟩ := hwritten
  exact (h.run hr).ahead_of_begun hs he

/-- Where no node ahead of the origin writes arrays, the arrays stay as they are. -/
theorem tables_eq (h : a.Confined w origin start)
    (hwriters : ∀ n node, ReflTransGen w.Feeds origin n → start.nodes[n]? = some node →
      node.kind ≠ .tableWrite) (hr : Run w rate a es b) : b.traffic.tables = a.traffic.tables := by
  induction hr with
  | refl => rfl
  | @step b next es e hr hs ih =>
    rcases hs.tables_cases with hsame | ⟨n, declared, c, x, he, hnode, -⟩
    · exact hsame.trans ih
    · have hb := h.run hr
      have hkind := congrArg (·[n]?) hb.kinds
      simp only [List.getElem?_map, hnode, Option.map_some] at hkind
      obtain ⟨node, hstart, hwriter⟩ := Option.map_eq_some_iff.1 hkind.symm
      exact absurd hwriter (hwriters n node (hb.ahead_of_begun hs he) hstart)

end Moment.Confined

end Cells

end Patchbay
