import Patchbay.Proofs.Delivery.Accounts

/-!
Deliveries without a record. Whether messages are recorded and what was recorded before is nothing
that a delivery looks at: without both it does the same to all else. The messages that leave nodes
are those of its events, and the record gains them or stays as it is.
-/
namespace Patchbay

namespace Traffic

/-- The traffic with nothing recorded, and nothing to be recorded. -/
def silent (t : Traffic) : Traffic := { t with log := #[], recording := false }

variable {w : Wiring} {rate : Float} {t : Traffic}

@[simp] theorem silent_record (s : Sent) : (t.record s).silent = t.silent := by
  unfold record
  split <;> rfl

@[simp] theorem record_silent (s : Sent) : t.silent.record s = t.silent := rfl

theorem silent_enqueue (d : Delivery) : (t.enqueue d).silent = t.silent.enqueue d := by
  unfold enqueue
  by_cases h : t.queued < maxWaiting
  · rw [if_pos h, if_pos (show t.silent.queued < maxWaiting from h)]
    rfl
  · rw [if_neg h, if_neg (show ¬ t.silent.queued < maxWaiting from h)]

theorem handle_silent (node : Node) (d : Delivery) : handle w rate t.silent node d =
    ((handle w rate t node d).1.silent, (handle w rate t node d).2) := rfl

/-- No part of a delivery depends on the record. -/
theorem induction_silent : Induction w rate
    (fun t actions => t.silent.perform w rate actions = (t.perform w rate actions).silent)
    (fun t d => t.silent.deliver w rate d = (t.deliver w rate d).silent)
    (fun t n => t.silent.drain w rate n = (t.drain w rate n).silent) where
  nil t := by rw [perform_nil, perform_nil]
  record t s rest ih := by
    rw [perform_record, perform_record, record_silent, ← ih, silent_record]
  deliver t d rest ihd ih := by
    rw [perform_deliver, perform_deliver, ihd, ih]
  ignore t d hinlet := by
    rw [deliver_of_no_inlet hinlet, deliver_of_no_inlet hinlet]
  busy t d hinlet hbusy := by
    rw [deliver_of_busy hinlet hbusy, deliver_of_busy hinlet (t := t.silent) hbusy, silent_enqueue]
  idle t d node hinlet hidle hnode ihp ihd := by
    rw [deliver_of_idle hinlet hidle hnode, deliver_of_idle hinlet (t := t.silent) hidle hnode]
    have henter : t.silent.enter d.target = (t.enter d.target).silent := rfl
    simp only [henter, handle_silent, ihp, ihd]
    rfl
  drained t n hwait := by
    rw [drain_of_none hwait, drain_of_none (t := t.silent) hwait]
  resume t n d others node hwait hnode ihp ihd := by
    rw [drain_of_some hwait hnode, drain_of_some (t := t.silent) hwait hnode]
    have hdequeue : t.silent.dequeue others = (t.dequeue others).silent := rfl
    simp only [hdequeue, handle_silent, ihp, ihd]

theorem Staffed.deliver_silent (h : t.Staffed w) (d : Delivery) :
    t.silent.deliver w rate d = (t.deliver w rate d).silent :=
  induction_silent.of_deliver h d

end Traffic

end Patchbay
