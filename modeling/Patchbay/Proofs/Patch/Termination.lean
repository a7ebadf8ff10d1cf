import Patchbay.Proofs.Patch.Idle

/-!
Termination of sends. Whatever the connections are, a send comes to an end, and on the way no more
nodes are handling messages at a time than the patch has.
-/
namespace Patchbay.Patch

variable {p : Patch}

/-- There is no endless send: every part of one goes on to the traffic that the send leaves, and
within it the handlings of messages are never nested more deeply than there are nodes. -/
theorem send_terminates (hp : p.Reachable) (first : Delivery) :
    Acc (fun b a => ∃ e, Step p.wiring p.sampleRate a e b) (p.sending first) ∧
    ∀ es c, Run p.wiring p.sampleRate (p.sending first) es c →
      (∃ rest, Run p.wiring p.sampleRate c rest
        ⟨(p.send first.target first.inlet first.message).traffic, []⟩) ∧
      c.handlers.length ≤ p.wiring.size := by
  have hidle := hp.idle
  obtain ⟨all, hall⟩ := hidle.exists_run_send first
  refine ⟨hall.accessible rfl, fun es c hrun => ⟨?_, ?_⟩⟩
  · obtain ⟨rest, -, hrest⟩ := hall.rest_of_done rfl hrun
    exact ⟨rest, hrest⟩
  · have ho := (hidle.orderly_sending first).run hrun
    calc c.handlers.length ≤ (holders c.tasks).length := c.handlers_sublist.length_le
      _ = c.traffic.busy.length := by rw [ho.busy]
      _ ≤ p.wiring.size := ho.length_busy_le

theorem send_terminates_echo :
    Acc (fun b a => ∃ e, Step echo.wiring echo.sampleRate a e b) (echo.sending ⟨0, 0, .bang⟩) ∧
    ∃ es c rest, Run echo.wiring echo.sampleRate (echo.sending ⟨0, 0, .bang⟩) es c ∧
      Run echo.wiring echo.sampleRate c rest ⟨(echo.send 0 0 .bang).traffic, []⟩ ∧
      c.tasks ≠ [] ∧ c.handlers.length ≤ 1 := by
  obtain ⟨hacc, hrest⟩ := send_terminates reachable_echo ⟨0, 0, .bang⟩
  obtain ⟨es, t, d, rest, hrun, -⟩ := exists_run_echo
  obtain ⟨⟨more, hmore⟩, hnested⟩ := hrest es _ hrun
  exact ⟨hacc, es, _, more, hrun, hmore, by simp, hnested⟩

end Patchbay.Patch
