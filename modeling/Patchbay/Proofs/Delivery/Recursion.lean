import Patchbay.Proofs.Delivery.Moment

/-!
The recursion of delivery as an induction principle, and as runs: performing actions, delivering a
message and draining a queue do what the steps from such a moment do until the task is done.
-/
namespace Patchbay

namespace Traffic

/-- There is a node for every placement. -/
def Staffed (w : Wiring) (t : Traffic) : Prop := t.nodes.length = w.size

variable {w : Wiring} {rate : Float} {t : Traffic}

theorem Staffed.exists_node (h : t.Staffed w) {n : Nat} (hn : n < w.size) :
    ∃ node, t.nodes[n]? = some node :=
  ⟨t.nodes.get ⟨n, h ▸ hn⟩, by simp⟩

theorem Staffed.node_of_inlet? (h : t.Staffed w) {n inlet : Nat} {kind : JackKind}
    (hinlet : w.inlet? n inlet = some kind) : ∃ node, t.nodes[n]? = some node :=
  h.exists_node (Wiring.lt_size_of_inlet? hinlet)

@[simp] theorem nodes_record (s : Sent) : (t.record s).nodes = t.nodes := by
  unfold Traffic.record
  split <;> rfl

@[simp] theorem tables_record (s : Sent) : (t.record s).tables = t.tables := by
  unfold Traffic.record
  split <;> rfl

@[simp] theorem busy_record (s : Sent) : (t.record s).busy = t.busy := by
  unfold Traffic.record
  split <;> rfl

@[simp] theorem waiting_record (s : Sent) : (t.record s).waiting = t.waiting := by
  unfold Traffic.record
  split <;> rfl

@[simp] theorem queued_record (s : Sent) : (t.record s).queued = t.queued := by
  unfold Traffic.record
  split <;> rfl

theorem enqueue_of_room {d : Delivery} (h : t.queued < maxWaiting) :
    t.enqueue d = { t with queued := t.queued + 1, waiting := t.waiting ++ [d] } := if_pos h

theorem enqueue_of_full {d : Delivery} (h : maxWaiting ≤ t.queued) : t.enqueue d = t :=
  if_neg (Nat.not_lt.2 h)

@[simp] theorem nodes_enqueue (d : Delivery) : (t.enqueue d).nodes = t.nodes := by
  unfold Traffic.enqueue
  split <;> rfl

@[simp] theorem tables_enqueue (d : Delivery) : (t.enqueue d).tables = t.tables := by
  unfold Traffic.enqueue
  split <;> rfl

@[simp] theorem busy_enqueue (d : Delivery) : (t.enqueue d).busy = t.busy := by
  unfold Traffic.enqueue
  split <;> rfl

theorem Staffed.record (h : t.Staffed w) (s : Sent) : (t.record s).Staffed w := by
  simpa [Staffed] using h

theorem Staffed.enqueue (h : t.Staffed w) (d : Delivery) : (t.enqueue d).Staffed w := by
  simpa [Staffed] using h

theorem Staffed.handle (h : t.Staffed w) (node : Node) (d : Delivery) :
    (handle w rate t node d).1.Staffed w := by
  simpa [Staffed, Traffic.handle] using h

/-- What an induction along the recursion of delivery shows in traffic where no node is missing. -/
structure Induction (w : Wiring) (rate : Float) (onPerform : Traffic → List Action → Prop)
    (onDeliver : Traffic → Delivery → Prop) (onDrain : Traffic → Nat → Prop) : Prop where
  nil : ∀ t, onPerform t []
  record : ∀ t s rest, onPerform (t.record s) rest → onPerform t (.record s :: rest)
  deliver : ∀ t d rest, onDeliver t d → onPerform (t.deliver w rate d) rest →
    onPerform t (.deliver d :: rest)
  ignore : ∀ t d, w.inlet? d.target d.inlet ≠ some .message → onDeliver t d
  busy : ∀ t d, w.inlet? d.target d.inlet = some .message → d.target ∈ t.busy → onDeliver t d
  idle : ∀ t d node, w.inlet? d.target d.inlet = some .message → d.target ∉ t.busy →
    t.nodes[d.target]? = some node →
    let handled := handle w rate (t.enter d.target) node d
    onPerform handled.1 handled.2 →
    onDrain (handled.1.perform w rate handled.2) d.target → onDeliver t d
  drained : ∀ t n, takeWaiting n t.waiting = none → onDrain t n
  resume : ∀ t n d others node, takeWaiting n t.waiting = some (d, others) →
    t.nodes[n]? = some node →
    let handled := handle w rate (t.dequeue others) node d
    onPerform handled.1 handled.2 →
    onDrain (handled.1.perform w rate handled.2) n → onDrain t n

namespace Induction

variable {onPerform : Traffic → List Action → Prop} {onDeliver : Traffic → Delivery → Prop}
  {onDrain : Traffic → Nat → Prop}

theorem staffed_and (i : Induction w rate onPerform onDeliver onDrain) :
    (∀ t actions, Staffed w t → Staffed w (t.perform w rate actions) ∧ onPerform t actions) ∧
    (∀ t d, Staffed w t → Staffed w (t.deliver w rate d) ∧ onDeliver t d) ∧
    ∀ t n, n < w.size → Staffed w t → Staffed w (t.drain w rate n) ∧ onDrain t n := by
  refine performAll.mutual_induct w rate
    (fun t actions => Staffed w t → Staffed w (t.perform w rate actions) ∧ onPerform t actions)
    (fun t d => Staffed w t → Staffed w (t.deliver w rate d) ∧ onDeliver t d)
    (fun t n => n < w.size → Staffed w t → Staffed w (t.drain w rate n) ∧ onDrain t n)
    ?nil ?record ?deliver ?busy ?missing ?idle ?ignore ?drained ?vanished ?resume
  case nil =>
    intro t h
    exact ⟨by simpa using h, i.nil t⟩
  case record =>
    intro t s rest ih h
    obtain ⟨hs, hp⟩ := ih (h.record s)
    exact ⟨by simpa using hs, i.record t s rest hp⟩
  case deliver =>
    intro t d rest _ ihd _ ihr h
    obtain ⟨hs, hd⟩ := ihd h
    obtain ⟨hs', hr⟩ := ihr hs
    exact ⟨by rw [perform_deliver]; exact hs', i.deliver t d rest hd hr⟩
  case busy =>
    intro t d hinlet hbusy h
    exact ⟨by simpa [deliver_of_busy hinlet hbusy] using h.enqueue d, i.busy t d hinlet hbusy⟩
  -- The recursion stops where a node is missing, and none is.
  case missing =>
    intro t d hinlet hidle hnone h
    obtain ⟨node, hnode⟩ := h.node_of_inlet? hinlet
    simp [hnode] at hnone
  case idle =>
    intro t d hinlet hidle node hnode handled outcome _ ihp _ ihd h
    obtain ⟨hs, hp⟩ := ihp (Staffed.handle (t := t.enter d.target) h node d)
    obtain ⟨hs', hd⟩ := ihd (Wiring.lt_size_of_inlet? hinlet) hs
    exact ⟨by rw [deliver_of_idle hinlet hidle hnode]; exact hs',
      i.idle t d node hinlet hidle hnode hp hd⟩
  case ignore =>
    intro t d hinlet h
    exact ⟨by simpa [deliver_of_no_inlet hinlet] using h, i.ignore t d hinlet⟩
  case drained =>
    intro t n hwait _ h
    exact ⟨by simpa [drain_of_none hwait] using h, i.drained t n hwait⟩
  case vanished =>
    intro t n d others hwait hnone hn h
    obtain ⟨node, hnode⟩ := h.exists_node hn
    simp [hnode] at hnone
  case resume =>
    intro t n d others hwait node hnode handled outcome _ ihp _ ihd hn h
    obtain ⟨hs, hp⟩ := ihp (Staffed.handle (t := t.dequeue others) h node d)
    obtain ⟨hs', hd⟩ := ihd hn hs
    exact ⟨by rw [drain_of_some hwait hnode]; exact hs',
      i.resume t n d others node hwait hnode hp hd⟩

theorem of_deliver (i : Induction w rate onPerform onDeliver onDrain) (h : t.Staffed w)
    (d : Delivery) : onDeliver t d := (i.staffed_and.2.1 t d h).2

end Induction

theorem Staffed.deliver (h : t.Staffed w) (d : Delivery) : (t.deliver w rate d).Staffed w := by
  have i : Induction w rate (fun _ _ => True) (fun _ _ => True) (fun _ _ => True) := by
    constructor <;> intros <;> trivial
  exact (i.staffed_and.2.1 t d h).1

theorem target_of_takeWaiting {n : Nat} {ds : List Delivery} {d : Delivery}
    {others : List Delivery} (h : takeWaiting n ds = some (d, others)) : d.target = n := by
  induction ds generalizing others with
  | nil => simp [takeWaiting] at h
  | cons e es ih =>
    simp only [takeWaiting] at h
    split at h
    · next ht =>
      obtain ⟨rfl, -⟩ := Prod.mk.inj (Option.some.inj h)
      exact ht
    · obtain ⟨⟨f, fs⟩, hf, he⟩ := Option.map_eq_some_iff.1 h
      obtain ⟨rfl, -⟩ := Prod.mk.inj he
      exact ih hf

end Traffic

open Traffic

variable {w : Wiring} {rate : Float} {t : Traffic}

/-- The node handles the message, returns, and handles what waits for it. -/
theorem Run.of_handling {t : Traffic} {node : Node} {d : Delivery} {rest : List Task}
    {es es' : List Event} {u v : Traffic}
    (hperform : Run w rate (.handling w rate t node d rest) es ⟨u, .finish d.target :: rest⟩)
    (hdrain : Run w rate ⟨u, .drain d.target :: rest⟩ es' ⟨v, rest⟩) :
    Run w rate (.handling w rate t node d rest) (es ++ [.finished d.target] ++ es') ⟨v, rest⟩ :=
  (hperform.step .finish).trans hdrain

/-- The recursion does the steps until its task is done. -/
theorem induction_run : Induction w rate
    (fun t actions => ∀ rest, ∃ es,
      Run w rate ⟨t, actions.map .act ++ rest⟩ es ⟨t.perform w rate actions, rest⟩)
    (fun t d => ∀ rest, ∃ es,
      Run w rate ⟨t, .act (.deliver d) :: rest⟩ es ⟨t.deliver w rate d, rest⟩)
    (fun t n => ∀ rest, ∃ es,
      Run w rate ⟨t, .drain n :: rest⟩ es ⟨(t.drain w rate n).leave, rest⟩) where
  nil t rest := ⟨[], by simpa using Run.refl _⟩
  record t s actions ih rest := by
    obtain ⟨es, h⟩ := ih rest
    exact ⟨_, by simpa using (Run.single .record).trans h⟩
  deliver t d actions ihd ih rest := by
    obtain ⟨es, hd⟩ := ihd (actions.map .act ++ rest)
    obtain ⟨es', h⟩ := ih rest
    exact ⟨es ++ es', by simpa using hd.trans h⟩
  ignore t d hinlet rest := by
    rw [deliver_of_no_inlet hinlet]
    exact ⟨_, .single (.ignore hinlet)⟩
  busy t d hinlet hbusy rest := by
    rw [deliver_of_busy hinlet hbusy]
    rcases Nat.lt_or_ge t.queued maxWaiting with hroom | hfull
    · exact ⟨_, .single (.queue hinlet hbusy hroom)⟩
    · rw [enqueue_of_full hfull]
      exact ⟨_, .single (.drop hinlet hbusy hfull)⟩
  idle t d node hinlet hidle hnode ihp ihd rest := by
    obtain ⟨es, hp⟩ := ihp (.finish d.target :: rest)
    obtain ⟨es', hd⟩ := ihd rest
    rw [deliver_of_idle hinlet hidle hnode]
    exact ⟨_, (Run.single (.handle hinlet hidle hnode)).trans (.of_handling hp hd)⟩
  drained t n hnone rest := by
    rw [drain_of_none hnone]
    exact ⟨_, .single (.leave hnone)⟩
  resume t n d others node hwait hnode ihp ihd rest := by
    obtain rfl := target_of_takeWaiting hwait
    obtain ⟨es, hp⟩ := ihp (.finish d.target :: rest)
    obtain ⟨es', hd⟩ := ihd rest
    rw [drain_of_some hwait hnode]
    exact ⟨_, (Run.single (.resume hwait hnode)).trans (.of_handling hp hd)⟩

theorem exists_run_deliver (rate : Float) (h : t.Staffed w) (d : Delivery) (rest : List Task) :
    ∃ es, Run w rate ⟨t, .act (.deliver d) :: rest⟩ es ⟨t.deliver w rate d, rest⟩ :=
  induction_run.of_deliver h d rest

end Patchbay
