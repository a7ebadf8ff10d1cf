import Patchbay.Proofs.Delivery.Plain
import Patchbay.Proofs.Patch.Feedback

/-!
Sends without loops. Where the message connections ahead of a node form no loop, a send to it is
plain delivery: nothing ever waits.
-/
namespace Patchbay

open Traffic Relation

namespace Wiring

variable {w : Wiring}

/-- Connections that all lead to later nodes form no loop. -/
theorem loopless_of_ascending
    (h : ∀ c ∈ w.connections, c.kind = .message → c.source < c.target) (n : Nat) :
    w.Loopless n := by
  have hlt {a b : Nat} (hab : TransGen w.Feeds a b) : a < b := by
    induction hab with
    | single hf => obtain ⟨c, hc, hk, rfl, rfl⟩ := hf; exact h c hc hk
    | tail _ hf ih => obtain ⟨c, hc, hk, rfl, rfl⟩ := hf; exact Nat.lt_trans ih (h c hc hk)
  exact fun m _ hm => Nat.lt_irrefl m (hlt hm)

end Wiring

namespace Patch

variable {p : Patch}

theorem Idle.isPlain_send (h : p.Idle) {d : Delivery} (hloop : p.wiring.Loopless d.target) :
    IsPlain p.wiring { p.traffic with queued := 0 } (p.send d.target d.inlet d.message).traffic
      (p.traffic.plain.deliver p.wiring p.sampleRate · d) :=
  Staffed.isPlain_deliver (t := { p.traffic with queued := 0 }) h.staffed h.waiting
    ⟨hloop, fun m _ => by simp [h.busy]⟩

/-- No message waits or is dropped on the way, when none has come to wait by the end. -/
theorem Idle.no_feedback (h : p.Idle) {first : Delivery} {es : List Event} {c : Moment}
    (hend : (p.send first.target first.inlet first.message).traffic.queued = 0)
    (hrun : Run p.wiring p.sampleRate (p.sending first) es c) :
    (Ledger.ofEvents es).queuings = [] ∧ (Ledger.ofEvents es).drops = [] := by
  have ha := h.accounts hrun
  obtain ⟨all, hall⟩ := h.exists_run_send first
  obtain ⟨more, -, hmore⟩ := hall.rest_of_done rfl hrun
  have hle : c.traffic.queued ≤ 0 := hend ▸ hmore.queued_le
  have hqueuings : (Ledger.ofEvents es).queuings.length = 0 :=
    ha.queued ▸ Nat.le_zero.1 hle
  refine ⟨List.eq_nil_of_length_eq_zero hqueuings, ?_⟩
  by_contra hdrops
  have hfull := ha.full hdrops
  simp [hqueuings, maxWaiting] at hfull

/-- Traffic is given by what messages show of it, once the busy nodes and the queues are known. -/
theorem eq_of_rest {t u : Traffic} (hbusy : t.busy = u.busy) (hwaiting : t.waiting = u.waiting)
    (hrecording : t.recording = u.recording) :
    t = { u with nodes := t.nodes, tables := t.tables, log := t.log, queued := t.queued } := by
  cases t
  simp_all

/-- Ahead of a node without message loops, a send is plain delivery, which goes no deeper than there
are nodes: the nodes, the arrays and the log are those of the plain recursion, all else stays, and
no message is queued or dropped. -/
theorem send_eq_plain (hp : p.Reachable) {node : Nat} (hloop : p.wiring.Loopless node)
    (inlet : Nat) (m : Message) :
    (∃ s, (∀ depth, p.wiring.size ≤ depth →
        p.traffic.plain.deliver p.wiring p.sampleRate depth ⟨node, inlet, m⟩ = some s) ∧
      p.send node inlet m = { p with
        traffic := { p.traffic with
          nodes := s.nodes, tables := s.tables, log := s.log, queued := 0 } }) ∧
    ∀ es c, Run p.wiring p.sampleRate (p.sending ⟨node, inlet, m⟩) es c →
      (Ledger.ofEvents es).queuings = [] ∧ (Ledger.ofEvents es).drops = [] := by
  have hidle := hp.idle
  have hplain := hidle.isPlain_send (d := ⟨node, inlet, m⟩) hloop
  refine ⟨⟨(p.send node inlet m).traffic.plain, fun depth hdepth => ?_, ?_⟩,
    fun es c => hidle.no_feedback hplain.queued⟩
  · exact hplain.result depth (Nat.le_trans length_idleNodes_le hdepth)
  · obtain ⟨all, hall⟩ := hidle.exists_run_send ⟨node, inlet, m⟩
    have hsent := hidle.send node inlet m
    have htraffic := eq_of_rest (t := (p.send node inlet m).traffic) (u := p.traffic)
      (hsent.busy.trans hidle.busy.symm) (hsent.waiting.trans hidle.waiting.symm)
      (Logged.run hall).1
    have hqueued : (p.send node inlet m).traffic.queued = 0 := hplain.queued
    rw [hqueued] at htraffic
    exact congrArg (fun traffic => { p with traffic }) htraffic

/-- A box that sends two numbers in turn to two others: the first answers with a value for a fourth to
write to an array, the second reads the array, and tells the fourth where the next value goes. -/
def diamond : Patch :=
  [.setArray "t" #[5, 6, 7], .add "msg" [.float 0, .symbol ",", .float 1], .add "msg" [.float 2],
    .add "tabread" [.symbol "t"], .add "tabwrite" [.symbol "t"], .connect 0 0 1 0, .connect 0 0 2 0,
    .connect 1 0 3 0, .connect 2 0 3 1].foldl Patch.after (Patch.new .builtin {})

theorem plain_deliver_diamond :
    (diamond.traffic.plain.deliver diamond.wiring diamond.sampleRate 4 ⟨0, 0, .bang⟩).map
      (fun s => (s.log, s.tables.get? "t")) =
    some (#[⟨0, 0, [.float 0]⟩, ⟨1, 0, [.float 2]⟩, ⟨2, 0, [.float 2]⟩,
      ⟨0, 0, [.float 1]⟩, ⟨1, 0, [.float 2]⟩, ⟨2, 0, [.float 6]⟩], some #[2, 6, 2]) := by
  decide +kernel

/-- All that follows from the first number comes before the second: the first value is in its cell
when that is read, and the second goes where the answer has it. -/
theorem send_eq_plain_diamond : diamond.Reachable ∧ diamond.wiring.Loopless 0 ∧
    (∃ s, diamond.traffic.plain.deliver diamond.wiring diamond.sampleRate 4 ⟨0, 0, .bang⟩ =
        some s ∧
      (diamond.send 0 0 .bang).traffic.log = s.log) ∧
    (diamond.send 0 0 .bang).traffic.log =
      #[⟨0, 0, [.float 0]⟩, ⟨1, 0, [.float 2]⟩, ⟨2, 0, [.float 2]⟩,
        ⟨0, 0, [.float 1]⟩, ⟨1, 0, [.float 2]⟩, ⟨2, 0, [.float 6]⟩] ∧
    (diamond.send 0 0 .bang).traffic.tables.get? "t" = some #[2, 6, 2] ∧
    ∃ es c, Run diamond.wiring diamond.sampleRate (diamond.sending ⟨0, 0, .bang⟩) es c ∧
      c.tasks = [] ∧ (Ledger.ofEvents es).queuings = [] ∧ (Ledger.ofEvents es).drops = [] := by
  have hreach : diamond.Reachable := (Reachable.new _ _).foldl_after _
  have hloop : diamond.wiring.Loopless 0 := Wiring.loopless_of_ascending (by decide) 0
  obtain ⟨⟨s, hs, hsend⟩, hno⟩ := send_eq_plain hreach hloop 0 .bang
  obtain ⟨es, hrun⟩ := hreach.idle.exists_run_send ⟨0, 0, .bang⟩
  have hplain := hs 4 (by decide)
  obtain ⟨hlog, htable⟩ : s.log = _ ∧ s.tables.get? "t" = _ := by
    simpa [hplain] using plain_deliver_diamond
  refine ⟨hreach, hloop, ⟨s, hplain, by rw [hsend]⟩, ?_, ?_, es, _, hrun, rfl, hno es _ hrun⟩
  · rw [hsend]
    exact hlog
  · rw [hsend]
    exact htable

end Patch

end Patchbay
