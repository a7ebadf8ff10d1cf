import Mathlib.Logic.Relation
import Patchbay.Proofs.Delivery.Recursion

/-!
Plain delivery: recursion along the connections, with no thought of nodes that are busy. Where the
message connections form no loop, delivery amounts to this.
-/
namespace Patchbay

open Relation

/-- What messages can change, when none ever waits. -/
structure Plain where
  nodes : List Node
  tables : Tables
  log : Array Sent
  recording : Bool

namespace Plain

def record (s : Plain) (m : Sent) : Plain :=
  if s.recording then { s with log := s.log.push m } else s

/-- The node handles the message. Each message that it sends is recorded, and then delivered along
one connection after the other with all that follows from it. There is no result if messages follow
from one another in more nodes than the depth allows, one within the other. -/
def deliver (w : Wiring) (rate : Float) (depth : Nat) (s : Plain) (d : Delivery) : Option Plain :=
  if w.inlet? d.target d.inlet = some .message then
    match depth, s.nodes[d.target]? with
    | _, none => some s
    | 0, some _ => none
    | depth + 1, some node =>
      let r := node.receive d.inlet d.message rate s.tables
      r.sent.foldlM
        (fun s (outlet, m) =>
          w.connections.foldlM
            (fun s c =>
              if c.source = d.target ∧ c.outlet = outlet ∧ c.kind = .message then
                deliver w rate depth s ⟨c.target, c.inlet, m⟩
              else some s)
            (s.record ⟨d.target, outlet, m⟩))
        { s with nodes := s.nodes.set d.target r.node, tables := r.tables }
  else some s

def act (w : Wiring) (rate : Float) (depth : Nat) (s : Plain) : Action → Option Plain
  | .record m => some (s.record m)
  | .deliver d => s.deliver w rate depth d

def perform (w : Wiring) (rate : Float) (depth : Nat) (s : Plain) (actions : List Action) :
    Option Plain :=
  actions.foldlM (act w rate depth) s

variable {w : Wiring} {rate : Float} {depth : Nat} {s : Plain}

@[simp] theorem perform_nil : s.perform w rate depth [] = some s := rfl

@[simp] theorem perform_record (m : Sent) (rest : List Action) :
    s.perform w rate depth (.record m :: rest) = (s.record m).perform w rate depth rest := rfl

theorem perform_deliver {s' : Plain} {d : Delivery} (h : s.deliver w rate depth d = some s')
    (rest : List Action) :
    s.perform w rate depth (.deliver d :: rest) = s'.perform w rate depth rest := by
  simp [perform, act, h]

theorem deliver_of_no_inlet {d : Delivery} (h : w.inlet? d.target d.inlet ≠ some .message) :
    s.deliver w rate depth d = some s := by
  unfold deliver
  exact if_neg h

theorem perform_append (first rest : List Action) :
    s.perform w rate depth (first ++ rest) =
      (s.perform w rate depth first).bind (·.perform w rate depth rest) :=
  List.foldlM_append

/-- A message is recorded, and delivered along its connections among all of them. -/
theorem perform_emission (m : Sent) : s.perform w rate depth (w.emission m) =
    w.connections.foldlM (fun s c =>
      if c.source = m.node ∧ c.outlet = m.outlet ∧ c.kind = .message then
        s.deliver w rate depth ⟨c.target, c.inlet, m.message⟩
      else some s) (s.record m) := by
  rw [Wiring.emission, perform_record]
  simp only [perform, Wiring.deliveries, List.foldlM_map, List.foldlM_filter, act,
    decide_eq_true_eq, Option.pure_def]

end Plain

namespace Wiring

variable {w : Wiring} {busy : List Nat} {m n : Nat}

/-- A message connection leads from one node to the other. -/
def Feeds (w : Wiring) (source target : Nat) : Prop :=
  ∃ c ∈ w.connections, c.kind = .message ∧ c.source = source ∧ c.target = target

/-- The message connections that can be reached from a node form no loop. -/
def Loopless (w : Wiring) (n : Nat) : Prop :=
  ∀ m, ReflTransGen w.Feeds n m → ¬ TransGen w.Feeds m m

/-- There is no loop ahead of the node, and no busy node. -/
structure Clear (w : Wiring) (busy : List Nat) (n : Nat) : Prop where
  loopless : w.Loopless n
  idle : ∀ m, ReflTransGen w.Feeds n m → m ∉ busy

/-- What a clear node feeds is still clear when the node itself is busy. -/
theorem Clear.enter (h : w.Clear busy n) (hfeed : w.Feeds n m) : w.Clear (n :: busy) m where
  loopless k hk := h.loopless k (hk.head hfeed)
  idle k hk hmem := by
    rcases List.mem_cons.1 hmem with rfl | hmem
    · exact h.loopless k .refl (.head' hfeed hk)
    · exact h.idle k (hk.head hfeed) hmem

theorem feeds_of_mem_deliveries {s : Sent} {d : Delivery} (h : d ∈ w.deliveries s) :
    w.Feeds s.node d.target := by
  simp only [deliveries, List.mem_map, List.mem_filter, decide_eq_true_eq] at h
  obtain ⟨c, ⟨hc, hs, -, hk⟩, rfl⟩ := h
  exact ⟨c, hc, hk, hs, rfl⟩

end Wiring

namespace Traffic

variable {w : Wiring} {rate : Float} {t : Traffic}

def plain (t : Traffic) : Plain := ⟨t.nodes, t.tables, t.log, t.recording⟩

@[simp] theorem plain_record (s : Sent) : (t.record s).plain = t.plain.record s := by
  unfold Traffic.record Plain.record
  cases h : t.recording <;> simp [plain, h]

theorem feeds_of_mem_handle {node : Node} {d e : Delivery}
    (h : .deliver e ∈ (handle w rate t node d).2) : w.Feeds d.target e.target := by
  simp only [actions_handle, emitted, Wiring.emission, List.mem_flatMap, List.mem_map,
    List.mem_cons, reduceCtorEq, false_or, Action.deliver.injEq, exists_eq_right] at h
  obtain ⟨_, ⟨out, -, rfl⟩, he⟩ := h
  exact Wiring.feeds_of_mem_deliveries he

/-- Plain delivery performs the actions of the handling. -/
theorem plain_deliver_of_node {d : Delivery} {node : Node} (depth : Nat)
    (hinlet : w.inlet? d.target d.inlet = some .message) (hnode : t.nodes[d.target]? = some node) :
    t.plain.deliver w rate (depth + 1) d =
      (handle w rate t node d).1.plain.perform w rate depth (handle w rate t node d).2 := by
  rw [actions_handle]
  unfold Plain.deliver
  simp only [hinlet, ↓reduceIte, plain, hnode, handle, emitted]
  generalize (node.receive d.inlet d.message rate t.tables).sent = sent
  generalize (Plain.mk _ _ _ _) = s
  induction sent generalizing s with
  | nil => rfl
  | cons out outs ih =>
    rw [List.map_cons, List.flatMap_cons, Plain.perform_append, Plain.perform_emission,
      List.foldlM_cons]
    exact congrArg _ (funext ih)

/-- The traffic reached is the result of plain delivery, which goes no deeper than there are idle
nodes, and nothing has come to wait. -/
structure IsPlain (w : Wiring) (t t' : Traffic) (result : Nat → Option Plain) : Prop where
  result : ∀ depth, (idleNodes w t).length ≤ depth → result depth = some t'.plain
  waiting : t'.waiting = []
  queued : t'.queued = t.queued

/-- Where no busy node lies ahead nothing comes to wait, and delivery is plain. -/
theorem induction_plain : Induction w rate
    (fun t actions => t.waiting = [] → (∀ d, .deliver d ∈ actions → w.Clear t.busy d.target) →
      IsPlain w t (t.perform w rate actions) (t.plain.perform w rate · actions))
    (fun t d => t.waiting = [] → w.Clear t.busy d.target →
      IsPlain w t (t.deliver w rate d) (t.plain.deliver w rate · d))
    (fun t n => t.waiting = [] → t.drain w rate n = t) where
  nil t hw _ := ⟨by simp, by simpa using hw, by simp⟩
  record t s rest ih hw hclear := by
    have hrest := ih (by simpa using hw) fun d hd => by
      simpa using hclear d (List.mem_cons_of_mem _ hd)
    have hidle : idleNodes w (t.record s) = idleNodes w t := idleNodes_congr (busy_record s)
    rw [perform_record]
    refine ⟨fun depth hdepth => ?_, hrest.waiting, by simpa using hrest.queued⟩
    rw [Plain.perform_record, ← plain_record]
    exact hrest.result depth (hidle ▸ hdepth)
  deliver t d rest ihd ih hw hclear := by
    have hd := ihd hw (hclear d List.mem_cons_self)
    have hb : (t.deliver w rate d).busy = t.busy := (follows_deliver d).busy
    have hrest := ih hd.waiting fun e he => hb ▸ hclear e (List.mem_cons_of_mem _ he)
    rw [perform_deliver]
    refine ⟨fun depth hdepth => ?_, hrest.waiting, hrest.queued.trans hd.queued⟩
    rw [Plain.perform_deliver (hd.result depth hdepth)]
    exact hrest.result depth (idleNodes_congr hb ▸ hdepth)
  ignore t d hinlet hw _ := by
    rw [deliver_of_no_inlet hinlet]
    exact ⟨fun depth _ => Plain.deliver_of_no_inlet hinlet, hw, rfl⟩
  busy t d hinlet hbusy _ hclear := absurd hbusy (hclear.idle _ .refl)
  idle t d node hinlet hidle hnode ihp ihd hw hclear := by
    have hp := ihp hw fun e he => hclear.enter (feeds_of_mem_handle he)
    have hend : t.deliver w rate d = ((handle w rate (t.enter d.target) node d).1.perform w rate
        (handle w rate (t.enter d.target) node d).2).leave :=
      (deliver_of_idle hinlet hidle hnode).trans (congrArg leave (ihd hp.waiting))
    rw [hend]
    refine ⟨fun depth hdepth => ?_, hp.waiting, hp.queued⟩
    -- The handling makes one more node busy, and takes one from the depth.
    have hfewer : (idleNodes w (handle w rate (t.enter d.target) node d).1).length <
        (idleNodes w t).length := idleNodes_lt (Wiring.lt_size_of_inlet? hinlet) hidle rfl
    obtain ⟨deeper, rfl⟩ : ∃ deeper, depth = deeper + 1 := ⟨depth - 1, by omega⟩
    exact (plain_deliver_of_node (t := t.enter d.target) deeper hinlet hnode).trans
      (hp.result deeper (by omega))
  drained t n hnone _ := drain_of_none hnone
  resume t n d others node hwait _ _ _ hw := by simp [hw, takeWaiting] at hwait

theorem Staffed.isPlain_deliver (h : t.Staffed w) {d : Delivery} (hwaiting : t.waiting = [])
    (hclear : w.Clear t.busy d.target) :
    IsPlain w t (t.deliver w rate d) (t.plain.deliver w rate · d) :=
  induction_plain.of_deliver h d hwaiting hclear

theorem length_idleNodes_le : (idleNodes w t).length ≤ w.size :=
  calc (idleNodes w t).length ≤ (List.range w.size).length := List.length_filter_le _ _
    _ = w.size := List.length_range

end Traffic

end Patchbay
