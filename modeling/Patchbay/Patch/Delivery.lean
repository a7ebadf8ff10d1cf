import Patchbay.Node.Basic
import Patchbay.Patch.Wiring

/-!
Delivery of messages. A message that reaches an idle node is handled at once, and all that follows
from it before anything else. One that reaches a node in the midst of handling another waits there,
and is handled before that node is idle again; a bound on the number of such messages ends feedback.
The recursion carries what makes it end along with its results. `Traffic.perform`, `Traffic.deliver`
and `Traffic.drain` are those results alone, with an equation for each case.
-/
namespace Patchbay

/-- A message that left a node. -/
structure Sent where
  node : Nat
  outlet : Nat
  message : Message
  deriving DecidableEq

/-- A message on its way to an inlet. -/
structure Delivery where
  target : Nat
  inlet : Nat
  message : Message
  deriving DecidableEq

/-- The number of messages that one send may make wait. -/
def maxWaiting : Nat := 64

/-- All that messages can change. -/
structure Traffic where
  nodes : List Node
  tables : Tables
  log : Array Sent
  recording : Bool
  /-- The nodes that are handling a message, the innermost first. -/
  busy : List Nat
  /-- Messages for busy nodes, in the order of their arrival. -/
  waiting : List Delivery
  /-- How many messages have been made to wait since the send began. -/
  queued : Nat

/-- One step of what a node brings about. -/
inductive Action where
  | record (sent : Sent)
  | deliver (delivery : Delivery)

namespace Traffic

def idle : Traffic := ⟨[], .empty, #[], true, [], [], 0⟩

def record (t : Traffic) (s : Sent) : Traffic :=
  if t.recording then { t with log := t.log.push s } else t

/-- Makes a message wait, or drops it when the bound is reached. -/
def enqueue (t : Traffic) (d : Delivery) : Traffic :=
  if t.queued < maxWaiting then { t with queued := t.queued + 1, waiting := t.waiting ++ [d] } else t

def enter (t : Traffic) (n : Nat) : Traffic := { t with busy := n :: t.busy }

def leave (t : Traffic) : Traffic := { t with busy := t.busy.tail }

/-- The first message that waits for a node, and the others. -/
def takeWaiting (n : Nat) : List Delivery → Option (Delivery × List Delivery)
  | [] => none
  | d :: ds =>
    if d.target = n then some (d, ds)
    else (takeWaiting n ds).map fun (first, others) => (first, d :: others)

/-- The messages that wait for a node. -/
def waitingFor (t : Traffic) (n : Nat) : List Delivery := t.waiting.filter (·.target = n)

def dequeue (t : Traffic) (others : List Delivery) : Traffic := { t with waiting := others }

/-- How many messages may yet be handled out of turn. -/
def work (t : Traffic) : Nat := (maxWaiting - t.queued) + t.waiting.length

def idleNodes (w : Wiring) (t : Traffic) : List Nat :=
  (List.range w.size).filter (· ∉ t.busy)

/-- What every part of a delivery keeps: the nodes that were busy still are, and no others. -/
structure Follows (t' t : Traffic) : Prop where
  busy : t'.busy = t.busy
  work : t'.work ≤ t.work

namespace Follows

theorem refl (t : Traffic) : Follows t t := ⟨rfl, Nat.le_refl _⟩

theorem trans {a b c : Traffic} (h : Follows a b) (h' : Follows b c) : Follows a c :=
  ⟨h.busy.trans h'.busy, Nat.le_trans h.work h'.work⟩

theorem record (t : Traffic) (s : Sent) : Follows (t.record s) t := by
  unfold Traffic.record
  split
  · exact ⟨rfl, Nat.le_refl _⟩
  · exact refl t

theorem enqueue (t : Traffic) (d : Delivery) : Follows (t.enqueue d) t := by
  unfold Traffic.enqueue
  split
  · refine ⟨rfl, ?_⟩
    simp only [Traffic.work, List.length_append, List.length_singleton]
    omega
  · exact refl t

end Follows

theorem length_takeWaiting {n : Nat} {ds : List Delivery} {d : Delivery} {others : List Delivery}
    (h : takeWaiting n ds = some (d, others)) : others.length + 1 = ds.length := by
  induction ds generalizing d others with
  | nil => simp [takeWaiting] at h
  | cons e es ih =>
    simp only [takeWaiting] at h
    split at h
    · simp only [Option.some.injEq, Prod.mk.injEq] at h
      simp [← h.2]
    · simp only [Option.map_eq_some_iff, Prod.mk.injEq] at h
      obtain ⟨⟨f, fs⟩, hf, rfl, rfl⟩ := h
      simp [ih hf]

theorem waitingFor_of_takeWaiting {t : Traffic} {n : Nat} {d : Delivery} {others : List Delivery}
    (h : takeWaiting n t.waiting = some (d, others)) (m : Nat) :
    t.waitingFor m = if m = n then d :: (t.dequeue others).waitingFor m
      else (t.dequeue others).waitingFor m := by
  simp only [waitingFor, dequeue]
  generalize t.waiting = ds at h
  induction ds generalizing d others with
  | nil => simp [takeWaiting] at h
  | cons e es ih =>
    simp only [takeWaiting] at h
    split at h
    · simp only [Option.some.injEq, Prod.mk.injEq] at h
      obtain ⟨rfl, rfl⟩ := h
      by_cases hm : m = n <;> grind
    · simp only [Option.map_eq_some_iff, Prod.mk.injEq] at h
      obtain ⟨⟨f, fs⟩, hf, rfl, rfl⟩ := h
      have := ih hf
      by_cases hm : m = n <;> grind

theorem takeWaiting_eq_none_iff {t : Traffic} {n : Nat} :
    takeWaiting n t.waiting = none ↔ t.waitingFor n = [] := by
  simp only [waitingFor]
  induction t.waiting with
  | nil => simp [takeWaiting]
  | cons e es ih =>
    simp only [takeWaiting]
    split <;> simp_all

theorem waitingFor_enqueue (t : Traffic) (d : Delivery) (n : Nat) :
    (t.enqueue d).waitingFor n =
      t.waitingFor n ++ if t.queued < maxWaiting ∧ d.target = n then [d] else [] := by
  unfold enqueue
  split <;> by_cases h : d.target = n <;> simp [waitingFor, *]

theorem work_dequeue_lt {t : Traffic} {n : Nat} {d : Delivery} {others : List Delivery}
    (h : takeWaiting n t.waiting = some (d, others)) : (t.dequeue others).work < t.work := by
  have := length_takeWaiting h
  simp only [work, dequeue]
  omega

theorem idleNodes_congr {w : Wiring} {t t' : Traffic} (h : t'.busy = t.busy) :
    idleNodes w t' = idleNodes w t := by
  simp [idleNodes, h]

theorem idleNodes_lt {w : Wiring} {t t' : Traffic} {n : Nat} (hw : n < w.size) (hn : n ∉ t.busy)
    (h : t'.busy = n :: t.busy) : (idleNodes w t').length < (idleNodes w t).length := by
  have key : idleNodes w t' = (idleNodes w t).filter (· ≠ n) := by
    simp only [idleNodes, List.filter_filter, h]
    congr 1
    funext m
    by_cases e : m = n <;> simp [e]
  rw [key]
  exact List.length_filter_lt_length_iff_exists.2 ⟨n, by simp [idleNodes, hw, hn], by simp⟩

/-- A node handles a message: its state and the arrays change, and it brings actions about. -/
def handle (w : Wiring) (rate : Float) (t : Traffic) (node : Node) (d : Delivery) :
    Traffic × List Action :=
  let r := node.receive d.inlet d.message rate t.tables
  ({ t with nodes := t.nodes.set d.target r.node, tables := r.tables },
    r.sent.flatMap fun (outlet, m) =>
      .record ⟨d.target, outlet, m⟩ ::
        (w.targets d.target outlet).map fun (target, inlet) => .deliver ⟨target, inlet, m⟩)

@[simp] theorem busy_handle (w : Wiring) (rate : Float) (t : Traffic) (node : Node) (d : Delivery) :
    (handle w rate t node d).1.busy = t.busy := rfl

@[simp] theorem work_handle (w : Wiring) (rate : Float) (t : Traffic) (node : Node) (d : Delivery) :
    (handle w rate t node d).1.work = t.work := rfl

theorem follows_handle (w : Wiring) (rate : Float) (t : Traffic) (node : Node) (d : Delivery) :
    Follows (handle w rate t node d).1 t := ⟨rfl, Nat.le_refl _⟩

/-- The order in which deliveries end: less work, or as much and fewer idle nodes, or as many and
fewer actions. -/
theorem lex_of_le {a b c a' b' c' : Nat} (ha : a' ≤ a) (hb : b' < b ∨ b' = b ∧ c' < c) :
    Prod.Lex (· < ·) (Prod.Lex (· < ·) (· < ·)) (a', b', c') (a, b, c) := by
  rcases Nat.lt_or_eq_of_le ha with h | rfl
  · exact Prod.Lex.left _ _ h
  · rcases hb with h | ⟨rfl, h⟩
    · exact Prod.Lex.right _ (Prod.Lex.left _ _ h)
    · exact Prod.Lex.right _ (Prod.Lex.right _ h)

end Traffic

open Traffic

mutual

/-- The actions in turn, each with all that follows from it. -/
def performAll (w : Wiring) (rate : Float) (t : Traffic) (actions : List Action) :
    { t' : Traffic // t'.Follows t } :=
  match actions with
  | [] => ⟨t, .refl t⟩
  | .record s :: rest =>
    let after := performAll w rate (t.record s) rest
    ⟨after.1, after.2.trans (.record t s)⟩
  | .deliver d :: rest =>
    let first := deliverTo w rate t d
    let after := performAll w rate first.1 rest
    ⟨after.1, after.2.trans first.2⟩
termination_by (t.work, (idleNodes w t).length, actions.length)
decreasing_by
  · have f := Follows.record t s
    exact lex_of_le f.work (.inr ⟨by rw [idleNodes_congr f.busy], by simp⟩)
  · exact lex_of_le (Nat.le_refl _) (.inr ⟨rfl, by simp⟩)
  · exact lex_of_le first.2.work (.inr ⟨by rw [idleNodes_congr first.2.busy], by simp⟩)

/-- One message to one inlet. Without such a message inlet nothing happens. -/
def deliverTo (w : Wiring) (rate : Float) (t : Traffic) (d : Delivery) :
    { t' : Traffic // t'.Follows t } :=
  if hinlet : w.inlet? d.target d.inlet = some .message then
    if hbusy : d.target ∈ t.busy then ⟨t.enqueue d, .enqueue t d⟩
    else match t.nodes[d.target]? with
      | none => ⟨t, .refl t⟩
      | some node =>
        let handled := handle w rate (t.enter d.target) node d
        let outcome := performAll w rate handled.1 handled.2
        let drained := drainFor w rate outcome.1 d.target
        ⟨drained.1.leave, by
          have f := (drained.2.trans outcome.2).trans (follows_handle w rate _ node d)
          exact ⟨by rw [leave, f.busy]; rfl, f.work⟩⟩
  else ⟨t, .refl t⟩
termination_by (t.work, (idleNodes w t).length, 0)
decreasing_by
  · exact lex_of_le (Nat.le_refl _)
      (.inl (idleNodes_lt (Wiring.lt_size_of_inlet? hinlet) hbusy rfl))
  · have f := outcome.2.trans (follows_handle w rate _ node d)
    exact lex_of_le f.work (.inl (idleNodes_lt (Wiring.lt_size_of_inlet? hinlet) hbusy f.busy))

/-- The messages that wait for a node, each with all that follows from it, until none waits. -/
def drainFor (w : Wiring) (rate : Float) (t : Traffic) (n : Nat) : { t' : Traffic // t'.Follows t } :=
  match hwait : takeWaiting n t.waiting with
  | none => ⟨t, .refl t⟩
  | some (d, others) =>
    match t.nodes[n]? with
    | none => ⟨t, .refl t⟩
    | some node =>
      let handled := handle w rate (t.dequeue others) node d
      let outcome := performAll w rate handled.1 handled.2
      let drained := drainFor w rate outcome.1 n
      ⟨drained.1, (drained.2.trans outcome.2).trans
        ⟨rfl, Nat.le_of_lt (work_dequeue_lt hwait)⟩⟩
termination_by (t.work, (idleNodes w t).length, 0)
decreasing_by
  · exact Prod.Lex.left _ _ (work_dequeue_lt hwait)
  · exact Prod.Lex.left _ _ (Nat.lt_of_le_of_lt outcome.2.work (work_dequeue_lt hwait))

end

namespace Traffic

/-- The traffic after some actions and all that follows from them. -/
def perform (w : Wiring) (rate : Float) (t : Traffic) (actions : List Action) : Traffic :=
  performAll w rate t actions

/-- The traffic after a message to an inlet and all that follows from it. -/
def deliver (w : Wiring) (rate : Float) (t : Traffic) (d : Delivery) : Traffic :=
  deliverTo w rate t d

/-- The traffic when nothing waits for a node any more. -/
def drain (w : Wiring) (rate : Float) (t : Traffic) (n : Nat) : Traffic :=
  drainFor w rate t n

variable {w : Wiring} {rate : Float} {t : Traffic}

theorem follows_perform (actions : List Action) : (t.perform w rate actions).Follows t :=
  (performAll w rate t actions).2

theorem follows_deliver (d : Delivery) : (t.deliver w rate d).Follows t :=
  (deliverTo w rate t d).2

@[simp] theorem perform_nil : t.perform w rate [] = t := by
  rw [perform, performAll]

@[simp] theorem perform_record (s : Sent) (rest : List Action) :
    t.perform w rate (.record s :: rest) = (t.record s).perform w rate rest := by
  rw [perform, performAll, perform]

@[simp] theorem perform_deliver (d : Delivery) (rest : List Action) :
    t.perform w rate (.deliver d :: rest) = (t.deliver w rate d).perform w rate rest := by
  rw [perform, performAll, perform, deliver]

@[simp] theorem perform_append (first rest : List Action) :
    t.perform w rate (first ++ rest) = (t.perform w rate first).perform w rate rest := by
  induction first generalizing t with
  | nil => simp
  | cons a first ih => cases a <;> simp [ih]

theorem deliver_of_no_inlet {d : Delivery} (h : w.inlet? d.target d.inlet ≠ some .message) :
    t.deliver w rate d = t := by
  rw [deliver, deliverTo]
  simp [h]

theorem deliver_of_busy {d : Delivery} (hinlet : w.inlet? d.target d.inlet = some .message)
    (hbusy : d.target ∈ t.busy) : t.deliver w rate d = t.enqueue d := by
  rw [deliver, deliverTo]
  simp [hinlet, hbusy]

theorem deliver_of_idle {d : Delivery} {node : Node}
    (hinlet : w.inlet? d.target d.inlet = some .message) (hidle : d.target ∉ t.busy)
    (hnode : t.nodes[d.target]? = some node) :
    t.deliver w rate d =
      let handled := handle w rate (t.enter d.target) node d
      ((handled.1.perform w rate handled.2).drain w rate d.target).leave := by
  rw [deliver, deliverTo]
  simp only [hinlet, hidle, ↓reduceDIte]
  split
  · simp_all
  · rename_i found hfound
    obtain rfl : found = node := by simpa [hnode] using hfound.symm
    rfl

theorem drain_of_none {n : Nat} (h : takeWaiting n t.waiting = none) : t.drain w rate n = t := by
  rw [drain, drainFor]
  split <;> simp_all

theorem drain_of_some {n : Nat} {d : Delivery} {others : List Delivery} {node : Node}
    (h : takeWaiting n t.waiting = some (d, others)) (hnode : t.nodes[n]? = some node) :
    t.drain w rate n =
      let handled := handle w rate (t.dequeue others) node d
      (handled.1.perform w rate handled.2).drain w rate n := by
  rw [drain, drainFor]
  split
  · simp_all
  · rename_i d' others' h'
    obtain ⟨rfl, rfl⟩ : d = d' ∧ others = others' := by simpa [h] using h'
    split
    · simp_all
    · rename_i found hfound
      obtain rfl : found = node := by simpa [hnode] using hfound.symm
      rfl

end Traffic

end Patchbay
