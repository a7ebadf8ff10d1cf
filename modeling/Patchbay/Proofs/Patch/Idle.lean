import Patchbay.Proofs.Delivery.Busy
import Patchbay.Proofs.Patch.Operation

/-!
Patches at rest. Between requests every node is idle and nothing waits, so each send begins with
idle nodes and no sample passes a node over.
-/
namespace Patchbay

open Traffic

namespace Patch

/-- The first moment of a send. -/
def sending (p : Patch) (d : Delivery) : Moment :=
  ⟨{ p.traffic with queued := 0 }, [.act (.deliver d)]⟩

/-- Every node is there, none is busy, and nothing waits. -/
structure Idle (p : Patch) : Prop where
  staffed : p.traffic.Staffed p.wiring
  busy : p.traffic.busy = []
  waiting : p.traffic.waiting = []

variable {p q : Patch}

theorem Idle.orderly_sending (h : p.Idle) (d : Delivery) : (p.sending d).Orderly p.wiring where
  staffed := h.staffed
  busy := h.busy
  nodup := by simp [sending, h.busy]
  lt_size := by simp [sending, h.busy]
  waitingFor_idle n _ := by simp [sending, waitingFor, h.waiting]

/-- The steps of a send come to an end, and to the traffic that the send leaves. -/
theorem Idle.exists_run_send (h : p.Idle) (d : Delivery) : ∃ es, Run p.wiring p.sampleRate
    (p.sending d) es ⟨(p.send d.target d.inlet d.message).traffic, []⟩ :=
  exists_run_deliver p.sampleRate (t := { p.traffic with queued := 0 }) h.staffed d []

theorem Idle.send (h : p.Idle) (node inlet : Nat) (m : Message) : (p.send node inlet m).Idle := by
  obtain ⟨es, hrun⟩ := h.exists_run_send ⟨node, inlet, m⟩
  have ho := (h.orderly_sending _).run hrun
  obtain ⟨hbusy, hwaiting⟩ := ho.idle_of_done rfl
  exact ⟨ho.staffed, hbusy, hwaiting⟩

theorem add_eq_ok {nodeType : String} {args : List Atom} {n : Nat}
    (h : p.add nodeType args = .ok (q, n)) : ∃ made, p.registry.build nodeType args = .ok made ∧
      q = { p with
        wiring := p.wiring.place ⟨made.nodeType, made.jacks⟩
        traffic := { p.traffic with nodes := p.traffic.nodes ++ [made.node] }
        levels := p.levels ++ [⟨List.replicate made.jacks.inlets.length 0,
          List.replicate made.jacks.outlets.length 0⟩] } := by
  simp only [Patch.add, bind, Except.bind] at h
  split at h
  · cases h
  · next made hmade => exact ⟨made, hmade, (Prod.mk.inj (Except.ok.inj h)).1.symm⟩

theorem connect_eq_ok {source outlet target inlet : Nat}
    (h : p.connect source outlet target inlet = .ok q) :
    ∃ w : Wiring, w.placements = p.wiring.placements ∧ q = { p with wiring := w } := by
  unfold Patch.connect at h
  split at h
  · next w hw =>
    refine ⟨w, ?_, (Except.ok.inj h).symm⟩
    simp only [connected, bind, Except.bind] at hw
    repeat' split at hw
    all_goals cases hw
    rfl
  · cases h

theorem Idle.add {nodeType : String} {args : List Atom} {n : Nat} (h : p.Idle)
    (hadd : p.add nodeType args = .ok (q, n)) : q.Idle := by
  obtain ⟨made, -, rfl⟩ := add_eq_ok hadd
  refine ⟨?_, h.busy, h.waiting⟩
  have := h.staffed
  simp_all [Staffed, Wiring.size, Wiring.place]

theorem Idle.connect {source outlet target inlet : Nat} (h : p.Idle)
    (hconnect : p.connect source outlet target inlet = .ok q) : q.Idle := by
  obtain ⟨w, hplacements, rfl⟩ := connect_eq_ok hconnect
  exact ⟨h.staffed.trans (congrArg List.length hplacements).symm, h.busy, h.waiting⟩

theorem traffic_compute {n : Nat} (h : p.compute n = .ok q) :
    q.traffic = p.traffic ∧ q.wiring = p.wiring := by
  simp only [compute, bind, Except.bind] at h
  repeat' split at h
  all_goals cases h
  all_goals exact ⟨rfl, rfl⟩

/-- What no sample of one node undoes, no samples of nodes in turn undo. -/
theorem foldlM_compute_induction {P : Patch → Prop} {order : List Nat}
    (step : ∀ {p q n}, P p → compute p n = .ok q → P q) (h : P p)
    (hfold : order.foldlM compute p = .ok q) : P q := by
  induction order generalizing p with
  | nil => exact Except.ok.inj hfold ▸ h
  | cons n order ih =>
    simp only [List.foldlM_cons, bind, Except.bind] at hfold
    split at hfold
    · cases hfold
    · next r hr => exact ih (step h hr) hfold

theorem traffic_foldlM_compute {order : List Nat} (h : order.foldlM compute p = .ok q) :
    q.traffic = p.traffic ∧ q.wiring = p.wiring := by
  refine foldlM_compute_induction (P := fun r => r.traffic = p.traffic ∧ r.wiring = p.wiring)
    (fun hr hs => ?_) ⟨rfl, rfl⟩ h
  obtain ⟨htraffic, hwiring⟩ := traffic_compute hs
  exact ⟨htraffic.trans hr.1, hwiring.trans hr.2⟩

/-- A tick that is given up changes nothing, and any other takes samples of some nodes in turn. -/
theorem after_tick (p : Patch) : p.after .tick = p ∨
    ∃ order : List Nat, order.foldlM compute p = .ok (p.after .tick) := by
  simp only [Patch.after, Patch.tick]
  cases p.wiring.signalGraph.sort with
  | error => exact .inl rfl
  | ok order =>
    cases hfold : order.foldlM compute p with
    | error => exact .inl (by simp only [hfold])
    | ok q => exact .inr ⟨order, by simp only [hfold]⟩

theorem Idle.of_same (h : p.Idle) (hsame : q.traffic = p.traffic ∧ q.wiring = p.wiring) :
    q.Idle := by
  obtain ⟨ht, hw⟩ := hsame
  constructor
  · rw [ht, hw]
    exact h.staffed
  · rw [ht]
    exact h.busy
  · rw [ht]
    exact h.waiting

theorem Idle.after (h : p.Idle) (o : Operation) : (p.after o).Idle := by
  cases o with
  | add nodeType args =>
    simp only [Patch.after]
    split
    · next hadd => exact h.add hadd
    · exact h
  | connect source outlet target inlet =>
    simp only [Patch.after]
    split
    · next hconnect => exact h.connect hconnect
    · exact h
  | send node inlet m => exact h.send node inlet m
  | setInput node inlet value => exact ⟨h.staffed, h.busy, h.waiting⟩
  | setArray name values => exact ⟨h.staffed, h.busy, h.waiting⟩
  | record on => exact ⟨h.staffed, h.busy, h.waiting⟩
  | drainLog => exact ⟨h.staffed, h.busy, h.waiting⟩
  | tick =>
    rcases after_tick p with hsame | ⟨order, hfold⟩
    · exact hsame.symm ▸ h
    · exact h.of_same (traffic_foldlM_compute hfold)

theorem Reachable.idle (h : p.Reachable) : p.Idle := by
  induction h with
  | new registry settings => exact ⟨rfl, rfl, rfl⟩
  | after _ o ih => exact ih.after o

/-- A box that answers a bang with the sample rate, and feeds its answers to itself. -/
def echo : Patch :=
  [.add "samplerate~" [], .connect 0 0 0 0].foldl Patch.after (Patch.new .builtin {})

theorem reachable_echo : echo.Reachable := (Reachable.new _ _).foldl_after _

/-- On the way of a bang to `echo`, the answer reaches the box while that is still busy. -/
theorem exists_run_echo : ∃ es t d rest, Run echo.wiring echo.sampleRate
    (echo.sending ⟨0, 0, .bang⟩) es ⟨t, .act (.deliver d) :: rest⟩ ∧
    echo.wiring.inlet? d.target d.inlet = some .message ∧ d.target = 0 ∧ t.busy = [0] :=
  ⟨_, _, _, _, .step (.step (.refl _) (.handle rfl (by decide) rfl)) .record, rfl, rfl, rfl⟩

/-- Between requests every node is at rest, and nothing waits. A delivery within a send gives back
the busy nodes that it found, leaves no message for an idle node, and adds to the queues of busy
ones at the end. No sample passes a node over as busy. -/
theorem rest_between_requests (hp : p.Reachable) :
    (p.traffic.nodes.length = p.wiring.size ∧ p.traffic.busy = [] ∧
      ∀ n, p.traffic.waitingFor n = []) ∧
    (∀ first, (∃ es, Run p.wiring p.sampleRate (p.sending first) es
        ⟨(p.send first.target first.inlet first.message).traffic, []⟩) ∧
      ∀ es t d rest,
        Run p.wiring p.sampleRate (p.sending first) es ⟨t, .act (.deliver d) :: rest⟩ →
        ∃ es' t', t' = t.deliver p.wiring p.sampleRate d ∧
          Run p.wiring p.sampleRate ⟨t, .act (.deliver d) :: rest⟩ es' ⟨t', rest⟩ ∧
          t'.busy = t.busy ∧ (∀ n ∉ t.busy, t.waitingFor n = [] ∧ t'.waitingFor n = []) ∧
          ∀ n ∈ t.busy, t.waitingFor n <+: t'.waitingFor n) ∧
    ∀ done n rest q, p.wiring.signalGraph.sort = .ok (done ++ n :: rest) →
      done.foldlM compute p = .ok q → n ∉ q.traffic.busy := by
  have hidle := hp.idle
  refine ⟨⟨hidle.staffed, hidle.busy, fun n => ?_⟩, fun first => ⟨?_, ?_⟩, ?_⟩
  · simp [waitingFor, hidle.waiting]
  · exact hidle.exists_run_send first
  · intro es t d rest hrun
    have ho := (hidle.orderly_sending first).run hrun
    obtain ⟨es', hd⟩ := exists_run_deliver p.sampleRate ho.staffed d rest
    have hbusy : (t.deliver p.wiring p.sampleRate d).busy = t.busy := (follows_deliver d).busy
    refine ⟨es', _, rfl, hd, hbusy, fun n hn => ⟨ho.waitingFor_idle n hn, ?_⟩, ?_⟩
    · exact (ho.run hd).waitingFor_idle n (by rwa [hbusy])
    · exact induction_prefix_waitingFor.of_deliver ho.staffed d
  · intro done n rest q _ hq
    simp [(traffic_foldlM_compute hq).1, hidle.busy]

/-- The second delivery in a send to `echo` finds the box busy. -/
theorem rest_between_requests_echo : echo.Reachable ∧ ∃ es t d rest t',
    Run echo.wiring echo.sampleRate (echo.sending ⟨0, 0, .bang⟩) es
      ⟨t, .act (.deliver d) :: rest⟩ ∧
    t' = t.deliver echo.wiring echo.sampleRate d ∧ t.busy = [0] ∧ t'.busy = [0] ∧
    t.waitingFor 0 <+: t'.waitingFor 0 ∧ t'.waitingFor 1 = [] := by
  obtain ⟨es, t, d, rest, hrun, -, -, hbusy⟩ := exists_run_echo
  obtain ⟨-, hsend, -⟩ := rest_between_requests reachable_echo
  obtain ⟨es', t', ht', -, hbusy', hidle, hprefix⟩ := (hsend ⟨0, 0, .bang⟩).2 es t d rest hrun
  exact ⟨reachable_echo, es, t, d, rest, t', hrun, ht', hbusy, hbusy'.trans hbusy,
    hprefix 0 (by simp [hbusy]), (hidle 1 (by simp [hbusy])).2⟩

end Patch

end Patchbay
