import Patchbay.Proofs.Delivery.Confined

/-!
The locality of a delivery. What happens in it depends on the nodes that can be reached from its
target, on the arrays and on what is busy or waits. From traffic that is the same in these the same
things happen, step by step, whatever the other nodes are.
-/
namespace Patchbay

open Traffic Relation

variable {w : Wiring} {rate : Float} {origin : Nat} {start t u : Traffic} {a b : Moment} {e : Event}
  {es : List Event}

/-- The traffic is the same as far as nodes ahead of the origin can tell. -/
structure Traffic.Alike (w : Wiring) (origin : Nat) (t u : Traffic) : Prop where
  nodes : ∀ n, ReflTransGen w.Feeds origin n → u.nodes[n]? = t.nodes[n]?
  tables : u.tables = t.tables
  busy : u.busy = t.busy
  waiting : u.waiting = t.waiting
  queued : u.queued = t.queued

namespace Traffic.Alike

theorem record (h : t.Alike w origin u) (s : Sent) : (t.record s).Alike w origin (u.record s) :=
  ⟨by simpa using h.nodes, by simpa using h.tables, by simpa using h.busy, by simpa using h.waiting,
    by simpa using h.queued⟩

theorem enqueue (h : t.Alike w origin u) (d : Delivery) :
    (t.enqueue d).Alike w origin (u.enqueue d) := by
  unfold Traffic.enqueue
  rw [h.queued]
  split
  · exact ⟨h.nodes, h.tables, h.busy, congrArg (· ++ [d]) h.waiting, rfl⟩
  · exact h

theorem enter (h : t.Alike w origin u) (n : Nat) : (t.enter n).Alike w origin (u.enter n) :=
  ⟨h.nodes, h.tables, congrArg (n :: ·) h.busy, h.waiting, h.queued⟩

theorem leave (h : t.Alike w origin u) : t.leave.Alike w origin u.leave :=
  ⟨h.nodes, h.tables, congrArg List.tail h.busy, h.waiting, h.queued⟩

theorem dequeue (h : t.Alike w origin u) (others : List Delivery) :
    (t.dequeue others).Alike w origin (u.dequeue others) :=
  ⟨h.nodes, h.tables, h.busy, rfl, h.queued⟩

theorem handle (h : t.Alike w origin u) (node : Node) (d : Delivery) :
    (handle w rate t node d).1.Alike w origin (handle w rate u node d).1 := by
  simp only [Traffic.handle, h.tables]
  refine ⟨fun n hn => ?_, rfl, h.busy, h.waiting, h.queued⟩
  simp only [List.getElem?_set', h.nodes n hn]

/-- A node brings about the same, for it sees nothing but its own state and the arrays. -/
theorem handling (h : t.Alike w origin u) (node : Node) (d : Delivery) (rest : List Task) :
    Moment.handling w rate u node d rest =
      ⟨(Traffic.handle w rate u node d).1, (Moment.handling w rate t node d rest).tasks⟩ := by
  simp only [Moment.handling, Traffic.handle, h.tables]

/-- From such traffic the next step is the same, and leads to such traffic. -/
theorem step (h : a.traffic.Alike w origin u) (hc : a.Confined w origin start)
    (hs : Step w rate a e b) :
    ∃ v, Step w rate ⟨u, a.tasks⟩ e ⟨v, b.tasks⟩ ∧ b.traffic.Alike w origin v := by
  cases hs with
  | record => exact ⟨_, .record, h.record _⟩
  | ignore hinlet => exact ⟨u, .ignore hinlet, h⟩
  | @handle t d rest node hinlet hidle hnode =>
    have hs : Step w rate ⟨u, .act (.deliver d) :: rest⟩ (.handled d)
        (.handling w rate (u.enter d.target) node d rest) :=
      .handle hinlet (h.busy ▸ hidle) ((h.nodes _ hc.head).trans hnode)
    rw [(h.enter d.target).handling] at hs
    exact ⟨_, hs, (h.enter d.target).handle node d⟩
  | queue hinlet hbusy hroom =>
    exact ⟨_, .queue hinlet (h.busy ▸ hbusy) (h.queued ▸ hroom), h.enqueue _⟩
  | drop hinlet hbusy hfull => exact ⟨u, .drop hinlet (h.busy ▸ hbusy) (h.queued ▸ hfull), h⟩
  | finish => exact ⟨u, .finish, h⟩
  | @resume t n rest d others node hwait hnode =>
    have hs : Step w rate ⟨u, .drain n :: rest⟩ (.resumed d)
        (.handling w rate (u.dequeue others) node d rest) :=
      .resume (h.waiting ▸ hwait) ((h.nodes _ hc.head).trans hnode)
    rw [(h.dequeue others).handling] at hs
    exact ⟨_, hs, (h.dequeue others).handle node d⟩
  | leave hnone => exact ⟨_, .leave (h.waiting ▸ hnone), h.leave⟩

theorem run (h : a.traffic.Alike w origin u) (hc : a.Confined w origin start)
    (hr : Run w rate a es b) :
    ∃ v, Run w rate ⟨u, a.tasks⟩ es ⟨v, b.tasks⟩ ∧ b.traffic.Alike w origin v := by
  induction hr with
  | refl => exact ⟨u, .refl _, h⟩
  | step hr hs ih =>
    obtain ⟨v, hrun, hv⟩ := ih
    obtain ⟨v', hstep, hv'⟩ := hv.step (hc.run hr) hs
    exact ⟨v', hrun.step hstep, hv'⟩

end Traffic.Alike

end Patchbay
