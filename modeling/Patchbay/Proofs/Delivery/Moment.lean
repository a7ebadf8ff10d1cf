import Patchbay.Patch.Basic

/-!
Delivery step by step. A moment of a send is the traffic with the tasks that are still to be done,
and each step does the next task. The recursion of `Traffic.deliver` does the same steps at once.
-/
namespace Patchbay

/-- The deliveries of a message that leaves a node: one for each message connection of the outlet, in
the order in which the connections were made. -/
def Wiring.deliveries (w : Wiring) (s : Sent) : List Delivery :=
  (w.connections.filter fun c =>
    c.source = s.node ∧ c.outlet = s.outlet ∧ c.kind = .message).map
      fun c => ⟨c.target, c.inlet, s.message⟩

/-- The message is recorded and then delivered. -/
def Wiring.emission (w : Wiring) (s : Sent) : List Action :=
  .record s :: (w.deliveries s).map .deliver

namespace Traffic

/-- The messages that leave a node when it handles one. -/
def emitted (rate : Float) (t : Traffic) (node : Node) (d : Delivery) : List Sent :=
  (node.receive d.inlet d.message rate t.tables).sent.map fun (outlet, m) => ⟨d.target, outlet, m⟩

theorem actions_handle (w : Wiring) (rate : Float) (t : Traffic) (node : Node) (d : Delivery) :
    (handle w rate t node d).2 = (t.emitted rate node d).flatMap w.emission := by
  simp [handle, emitted, Wiring.emission, Wiring.deliveries, Wiring.targets_eq, List.flatMap_map,
    Function.comp_def]

end Traffic

open Traffic

/-- Something that is still to be done in the course of a send. -/
inductive Task where
  | act (action : Action)
  /-- A node is handling a message and returns from that. -/
  | finish (node : Nat)
  /-- A node has handled a message and looks for one that waits for it. -/
  | drain (node : Nat)

/-- A moment of a send. The next task comes first. -/
structure Moment where
  traffic : Traffic
  tasks : List Task

/-- What happens in a step. -/
inductive Event where
  | sent (message : Sent)
  /-- There is no such message inlet. -/
  | ignored (d : Delivery)
  /-- The node was idle and handles the message at once. -/
  | handled (d : Delivery)
  | queued (d : Delivery)
  | dropped (d : Delivery)
  /-- The node takes the message from its queue and handles it. -/
  | resumed (d : Delivery)
  | finished (node : Nat)
  /-- The delivery that made the node busy is over. -/
  | returned (node : Nat)

/-- A node begins to handle a message. What it brings about is done before it returns. -/
def Moment.handling (w : Wiring) (rate : Float) (t : Traffic) (node : Node) (d : Delivery)
    (rest : List Task) : Moment :=
  let handled := handle w rate t node d
  ⟨handled.1, handled.2.map .act ++ .finish d.target :: rest⟩

inductive Step (w : Wiring) (rate : Float) : Moment → Event → Moment → Prop
  | record {t : Traffic} {s : Sent} {rest : List Task} :
      Step w rate ⟨t, .act (.record s) :: rest⟩ (.sent s) ⟨t.record s, rest⟩
  | ignore {t : Traffic} {d : Delivery} {rest : List Task}
      (hinlet : w.inlet? d.target d.inlet ≠ some .message) :
      Step w rate ⟨t, .act (.deliver d) :: rest⟩ (.ignored d) ⟨t, rest⟩
  | handle {t : Traffic} {d : Delivery} {rest : List Task} {node : Node}
      (hinlet : w.inlet? d.target d.inlet = some .message) (hidle : d.target ∉ t.busy)
      (hnode : t.nodes[d.target]? = some node) :
      Step w rate ⟨t, .act (.deliver d) :: rest⟩ (.handled d)
        (.handling w rate (t.enter d.target) node d rest)
  | queue {t : Traffic} {d : Delivery} {rest : List Task}
      (hinlet : w.inlet? d.target d.inlet = some .message) (hbusy : d.target ∈ t.busy)
      (hroom : t.queued < maxWaiting) :
      Step w rate ⟨t, .act (.deliver d) :: rest⟩ (.queued d) ⟨t.enqueue d, rest⟩
  | drop {t : Traffic} {d : Delivery} {rest : List Task}
      (hinlet : w.inlet? d.target d.inlet = some .message) (hbusy : d.target ∈ t.busy)
      (hfull : maxWaiting ≤ t.queued) :
      Step w rate ⟨t, .act (.deliver d) :: rest⟩ (.dropped d) ⟨t, rest⟩
  | finish {t : Traffic} {n : Nat} {rest : List Task} :
      Step w rate ⟨t, .finish n :: rest⟩ (.finished n) ⟨t, .drain n :: rest⟩
  | resume {t : Traffic} {n : Nat} {rest : List Task} {d : Delivery} {others : List Delivery}
      {node : Node} (hwait : takeWaiting n t.waiting = some (d, others))
      (hnode : t.nodes[n]? = some node) :
      Step w rate ⟨t, .drain n :: rest⟩ (.resumed d)
        (.handling w rate (t.dequeue others) node d rest)
  | leave {t : Traffic} {n : Nat} {rest : List Task} (hnone : takeWaiting n t.waiting = none) :
      Step w rate ⟨t, .drain n :: rest⟩ (.returned n) ⟨t.leave, rest⟩

/-- A part of a send, and what happens in it one after the other. -/
inductive Run (w : Wiring) (rate : Float) : Moment → List Event → Moment → Prop
  | refl (a : Moment) : Run w rate a [] a
  | step {a b c : Moment} {es : List Event} {e : Event} (hab : Run w rate a es b)
      (hbc : Step w rate b e c) : Run w rate a (es ++ [e]) c

variable {w : Wiring} {rate : Float} {a b c : Moment} {es es' : List Event} {e e' : Event}

/-- A moment leaves no choice of what happens next. -/
theorem Step.deterministic (h : Step w rate a e b) (h' : Step w rate a e' c) : e = e' ∧ b = c := by
  -- The first task, the inlet, the busy nodes and what waits tell the kinds of step apart.
  cases h <;> cases h' <;> grind

namespace Run

theorem single (h : Step w rate a e b) : Run w rate a [e] b := by
  simpa using Run.step (.refl a) h

theorem trans (h : Run w rate a es b) (h' : Run w rate b es' c) : Run w rate a (es ++ es') c := by
  induction h' with
  | refl => simpa using h
  | step _ hs ih => simpa using Run.step ih hs

theorem cases_head (h : Run w rate a es b) :
    es = [] ∧ a = b ∨ ∃ e es' c, es = e :: es' ∧ Step w rate a e c ∧ Run w rate c es' b := by
  induction h with
  | refl => exact .inl ⟨rfl, rfl⟩
  | step _ hs ih =>
    rcases ih with ⟨rfl, rfl⟩ | ⟨e, es', c, rfl, hfirst, hrest⟩
    · exact .inr ⟨_, _, _, rfl, hs, .refl _⟩
    · exact .inr ⟨e, _, c, rfl, hfirst, .step hrest hs⟩

/-- A run to the end of a send goes on from each moment that is met on the way. -/
theorem rest_of_done (h : Run w rate a es b) (hdone : b.tasks = []) (h' : Run w rate a es' c) :
    ∃ rest, es = es' ++ rest ∧ Run w rate c rest b := by
  -- Each step of the part is the first step of what is left of the whole.
  induction h' with
  | refl => exact ⟨es, rfl, h⟩
  | step _ hs ih =>
    obtain ⟨rest, rfl, hrest⟩ := ih
    rcases hrest.cases_head with ⟨rfl, rfl⟩ | ⟨e, rest', c, rfl, hfirst, hrest'⟩
    · cases hs <;> simp at hdone
    · obtain ⟨rfl, rfl⟩ := hfirst.deterministic hs
      exact ⟨rest', by simp, hrest'⟩

/-- What happens up to the end of a send, and where it ends, is well determined. -/
theorem eq_of_done (h : Run w rate a es b) (hdone : b.tasks = []) (h' : Run w rate a es' c)
    (hdone' : c.tasks = []) : es = es' ∧ b = c := by
  obtain ⟨rest, rfl, hrest⟩ := h.rest_of_done hdone h'
  rcases hrest.cases_head with ⟨rfl, rfl⟩ | ⟨_, _, _, -, hfirst, -⟩
  · exact ⟨List.append_nil _, rfl⟩
  · cases hfirst <;> simp at hdone'

/-- There is no endless run from where a run comes to the end. -/
theorem accessible (h : Run w rate a es b) (hdone : b.tasks = []) :
    Acc (fun y x => ∃ e, Step w rate x e y) a := by
  -- The only step leads to where a shorter run to the end begins.
  induction es generalizing a with
  | nil =>
    rcases h.cases_head with ⟨-, rfl⟩ | ⟨_, _, _, he, _⟩
    · refine ⟨_, fun y ⟨e, hs⟩ => ?_⟩
      cases hs <;> simp at hdone
    · simp at he
  | cons e es ih =>
    rcases h.cases_head with ⟨he, -⟩ | ⟨_, _, c, he, hfirst, hrest⟩
    · simp at he
    · obtain ⟨rfl, rfl⟩ := List.cons.inj he
      refine ⟨_, fun y ⟨e', hs⟩ => ?_⟩
      obtain ⟨-, rfl⟩ := hfirst.deterministic hs
      exact ih hrest

end Run

end Patchbay
