import Mathlib.Data.List.Perm.Subperm
import Patchbay.Proofs.Delivery.Recursion

/-!
Busy nodes. Throughout a send the busy nodes are those that the tasks to be done will release, each
of them once, and messages wait for busy nodes only. A delivery gives back the busy nodes that it
found, and adds to their queues at the end.
-/
namespace Patchbay

open Traffic

/-- The node that is idle again once the task is done. -/
def Task.holder? : Task → Option Nat
  | .act _ => none
  | .finish n => some n
  | .drain n => some n

def holders (tasks : List Task) : List Nat := tasks.filterMap Task.holder?

@[simp] theorem holders_act (action : Action) (rest : List Task) :
    holders (.act action :: rest) = holders rest := rfl

@[simp] theorem holders_finish (n : Nat) (rest : List Task) :
    holders (.finish n :: rest) = n :: holders rest := rfl

@[simp] theorem holders_drain (n : Nat) (rest : List Task) :
    holders (.drain n :: rest) = n :: holders rest := rfl

@[simp] theorem holders_acts (actions : List Action) (rest : List Task) :
    holders (actions.map .act ++ rest) = holders rest := by
  induction actions with
  | nil => rfl
  | cons a actions ih => simpa using ih

namespace Traffic

variable {w : Wiring} {rate : Float} {t : Traffic} {n : Nat}

@[simp] theorem waitingFor_record (s : Sent) : (t.record s).waitingFor n = t.waitingFor n := by
  simp [waitingFor]

theorem waitingFor_dequeue_of_ne {m : Nat} {d : Delivery} {others : List Delivery}
    (h : takeWaiting m t.waiting = some (d, others)) (hn : n ≠ m) :
    (t.dequeue others).waitingFor n = t.waitingFor n := by
  simpa [hn] using (waitingFor_of_takeWaiting h n).symm

/-- What waits for a busy node is kept, and what comes is put behind it. -/
theorem induction_prefix_waitingFor : Induction w rate
    (fun t actions => ∀ n ∈ t.busy, t.waitingFor n <+: (t.perform w rate actions).waitingFor n)
    (fun t d => ∀ n ∈ t.busy, t.waitingFor n <+: (t.deliver w rate d).waitingFor n)
    (fun t m => ∀ n ∈ t.busy, n ≠ m → t.waitingFor n <+: (t.drain w rate m).waitingFor n) where
  nil t := by simp
  record t s actions ih n hn := by simpa using ih n (by simpa using hn)
  deliver t d actions ihd ih n hn := by
    rw [perform_deliver]
    exact (ihd n hn).trans (ih n (by rwa [(follows_deliver d).busy]))
  ignore t d hinlet n _ := by simp [deliver_of_no_inlet hinlet]
  busy t d hinlet hbusy n _ := by
    rw [deliver_of_busy hinlet hbusy, waitingFor_enqueue]
    exact List.prefix_append _ _
  idle t d node hinlet hidle hnode ihp ihd n hn := by
    have hne : n ≠ d.target := fun h => hidle (h ▸ hn)
    have hmem : n ∈ (t.enter d.target).busy := List.mem_cons_of_mem _ hn
    rw [deliver_of_idle hinlet hidle hnode]
    exact (ihp n hmem).trans (ihd n (by rwa [(follows_perform _).busy]) hne)
  drained t m hnone n _ _ := by simp [drain_of_none hnone]
  resume t m d others node hwait hnode ihp ihd n hn hne := by
    rw [drain_of_some hwait hnode, ← waitingFor_dequeue_of_ne hwait hne]
    exact (ihp n hn).trans (ihd n (by rwa [(follows_perform _).busy]) hne)

end Traffic

/-- What holds at every moment of a send. -/
structure Moment.Orderly (w : Wiring) (c : Moment) : Prop where
  staffed : c.traffic.Staffed w
  busy : c.traffic.busy = holders c.tasks
  nodup : c.traffic.busy.Nodup
  lt_size : ∀ n ∈ c.traffic.busy, n < w.size
  waitingFor_idle : ∀ n ∉ c.traffic.busy, c.traffic.waitingFor n = []

namespace Moment.Orderly

variable {w : Wiring} {rate : Float} {t : Traffic} {rest : List Task}

theorem handling {node : Node} {d : Delivery} (h : Orderly w ⟨t, .finish d.target :: rest⟩) :
    (Moment.handling w rate t node d rest).Orderly w where
  staffed := h.staffed.handle node d
  busy := by simpa [Moment.handling] using h.busy
  nodup := h.nodup
  lt_size := h.lt_size
  waitingFor_idle := h.waitingFor_idle

theorem record {s : Sent} (h : Orderly w ⟨t, .act (.record s) :: rest⟩) :
    Orderly w ⟨t.record s, rest⟩ where
  staffed := h.staffed.record s
  busy := by simpa using h.busy
  nodup := by simpa using h.nodup
  lt_size := by simpa using h.lt_size
  waitingFor_idle := by simpa using h.waitingFor_idle

theorem skip {a : Action} (h : Orderly w ⟨t, .act a :: rest⟩) : Orderly w ⟨t, rest⟩ :=
  ⟨h.staffed, by simpa using h.busy, h.nodup, h.lt_size, h.waitingFor_idle⟩

theorem enqueue {d : Delivery} (h : Orderly w ⟨t, .act (.deliver d) :: rest⟩)
    (hbusy : d.target ∈ t.busy) : Orderly w ⟨t.enqueue d, rest⟩ where
  staffed := h.staffed.enqueue d
  busy := by simpa using h.busy
  nodup := by simpa using h.nodup
  lt_size := by simpa using h.lt_size
  waitingFor_idle n hn := by
    have hn : n ∉ t.busy := by simpa using hn
    have hne : d.target ≠ n := fun he => hn (he ▸ hbusy)
    simpa [waitingFor_enqueue, hne] using h.waitingFor_idle n hn

theorem enter {d : Delivery} (h : Orderly w ⟨t, .act (.deliver d) :: rest⟩)
    (hidle : d.target ∉ t.busy) (hlt : d.target < w.size) :
    Orderly w ⟨t.enter d.target, .finish d.target :: rest⟩ where
  staffed := h.staffed
  busy := by simpa [Traffic.enter] using h.busy
  nodup := List.nodup_cons.2 ⟨hidle, h.nodup⟩
  lt_size := by simpa [Traffic.enter, hlt] using h.lt_size
  waitingFor_idle n hn := h.waitingFor_idle n fun hm => hn (List.mem_cons_of_mem _ hm)

theorem dequeue {n : Nat} {d : Delivery} {others : List Delivery}
    (h : Orderly w ⟨t, .drain n :: rest⟩) (hwait : takeWaiting n t.waiting = some (d, others)) :
    Orderly w ⟨t.dequeue others, .finish n :: rest⟩ where
  staffed := h.staffed
  busy := h.busy
  nodup := h.nodup
  lt_size := h.lt_size
  waitingFor_idle m hm := by
    have hbusy : t.busy = n :: holders rest := h.busy
    have hne : m ≠ n := fun he => hm (by simp [Traffic.dequeue, hbusy, he])
    exact (waitingFor_dequeue_of_ne hwait hne).trans (h.waitingFor_idle m hm)

/-- The node that becomes idle leaves no message behind. -/
theorem leave {n : Nat} (h : Orderly w ⟨t, .drain n :: rest⟩)
    (hnone : takeWaiting n t.waiting = none) : Orderly w ⟨t.leave, rest⟩ := by
  have hbusy : t.busy = n :: holders rest := h.busy
  have htail : t.leave.busy = holders rest := by simp [Traffic.leave, hbusy]
  refine ⟨h.staffed, htail, htail ▸ ?_, htail ▸ ?_, htail ▸ ?_⟩
  · exact (List.nodup_cons.1 (hbusy ▸ h.nodup)).2
  · intro m hm
    exact h.lt_size m (hbusy ▸ List.mem_cons_of_mem _ hm)
  · intro m hm
    by_cases he : m = n
    · exact he ▸ takeWaiting_eq_none_iff.1 hnone
    -- The other idle nodes were idle before.
    · apply h.waitingFor_idle m
      intro hmem
      rcases List.mem_cons.1 (hbusy ▸ hmem) with hn | hrest
      · exact he hn
      · exact hm hrest

theorem step {a b : Moment} {e : Event} (h : a.Orderly w) (hs : Step w rate a e b) :
    b.Orderly w := by
  cases hs with
  | record => exact h.record
  | ignore => exact h.skip
  | handle hinlet hidle _ => exact (h.enter hidle (Wiring.lt_size_of_inlet? hinlet)).handling
  | queue _ hbusy _ => exact h.enqueue hbusy
  | drop => exact h.skip
  | finish => exact ⟨h.staffed, h.busy, h.nodup, h.lt_size, h.waitingFor_idle⟩
  | resume hwait _ =>
    obtain rfl := target_of_takeWaiting hwait
    exact (h.dequeue hwait).handling
  | leave hnone => exact h.leave hnone

theorem run {a b : Moment} {es : List Event} (h : a.Orderly w) (hr : Run w rate a es b) :
    b.Orderly w := by
  induction hr with
  | refl => exact h
  | step _ hs ih => exact ih.step hs

/-- After the last task all nodes are idle and nothing waits. -/
theorem idle_of_done {c : Moment} (h : c.Orderly w) (hdone : c.tasks = []) :
    c.traffic.busy = [] ∧ c.traffic.waiting = [] := by
  have hbusy : c.traffic.busy = [] := by rw [h.busy, hdone]; rfl
  refine ⟨hbusy, List.eq_nil_iff_forall_not_mem.2 fun d hd => ?_⟩
  have hempty := h.waitingFor_idle d.target (by simp [hbusy])
  simp only [waitingFor, List.filter_eq_nil_iff] at hempty
  exact hempty d hd (by simp)

theorem length_busy_le {c : Moment} (h : c.Orderly w) : c.traffic.busy.length ≤ w.size := by
  have hsub : c.traffic.busy ⊆ List.range w.size := fun n hn => List.mem_range.2 (h.lt_size n hn)
  simpa using (h.nodup.subperm hsub).length_le

end Moment.Orderly

/-- The nodes whose handling of a message is under way, the innermost first. -/
def Moment.handlers (c : Moment) : List Nat :=
  c.tasks.filterMap fun
    | .finish n => some n
    | _ => none

/-- A node that handles a message is busy, and counts once. -/
theorem Moment.handlers_sublist (c : Moment) : c.handlers.Sublist (holders c.tasks) := by
  obtain ⟨t, tasks⟩ := c
  simp only [Moment.handlers]
  induction tasks with
  | nil => exact .slnil
  | cons a tasks ih =>
    cases a with
    | act => simpa using ih
    | finish n => simpa using ih
    | drain n => simpa using ih.cons n

end Patchbay
