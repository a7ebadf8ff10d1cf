import Patchbay.Proofs.Delivery.Recursion

/-!
Kinds of nodes. Whatever messages come, a node stays of the kind that it was made as.
-/
namespace Patchbay

open Traffic

theorem set_eq_self {α : Type} {l : List α} {n : Nat} {a : α} (h : l[n]? = some a) :
    l.set n a = l := by
  obtain ⟨hn, rfl⟩ := List.getElem?_eq_some_iff.1 h
  exact List.set_getElem_self hn

theorem Node.kind_receive (node : Node) (inlet : Nat) (m : Message) (rate : Float)
    (tables : Tables) : (node.receive inlet m rate tables).node.kind = node.kind := by
  cases node with
  | message declared active =>
    unfold receive receiveMessage
    dsimp only
    split <;> rfl
  | tableWrite declared b =>
    unfold receive receiveWrite
    dsimp only
    split
    · rfl
    · split <;> rfl
    · rfl
    · rfl
  | tableRead declared b =>
    unfold receive receiveRead
    dsimp only
    split
    · rfl
    · split <;> rfl
  | sampleRate => rfl
  | func f => rfl

namespace Traffic

variable {w : Wiring} {rate : Float} {t : Traffic}

theorem kinds_handle {n : Nat} {node : Node} (hnode : t.nodes[n]? = some node) (d : Delivery)
    (hd : d.target = n) : (handle w rate t node d).1.nodes.map (·.kind) = t.nodes.map (·.kind) := by
  subst hd
  simp only [handle, List.map_set, Node.kind_receive]
  exact set_eq_self (by simp [hnode])

/-- No node changes its kind. -/
theorem induction_kinds : Induction w rate
    (fun t actions => (t.perform w rate actions).nodes.map (·.kind) = t.nodes.map (·.kind))
    (fun t d => (t.deliver w rate d).nodes.map (·.kind) = t.nodes.map (·.kind))
    (fun t n => (t.drain w rate n).nodes.map (·.kind) = t.nodes.map (·.kind)) where
  nil t := by rw [perform_nil]
  record t s rest ih := by
    rw [perform_record, ih, nodes_record]
  deliver t d rest ihd ih := by
    rw [perform_deliver, ih, ihd]
  ignore t d hinlet := by rw [deliver_of_no_inlet hinlet]
  busy t d hinlet hbusy := by rw [deliver_of_busy hinlet hbusy, nodes_enqueue]
  idle t d node hinlet hidle hnode ihp ihd := by
    rw [deliver_of_idle hinlet hidle hnode]
    exact (ihd.trans ihp).trans (kinds_handle (t := t.enter d.target) hnode d rfl)
  drained t n hnone := by rw [drain_of_none hnone]
  resume t n d others node hwait hnode ihp ihd := by
    rw [drain_of_some hwait hnode]
    exact (ihd.trans ihp).trans
      (kinds_handle (t := t.dequeue others) hnode d (target_of_takeWaiting hwait))

end Traffic

end Patchbay
