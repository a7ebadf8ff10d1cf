import Patchbay.Proofs.Delivery.Accounts
import Patchbay.Proofs.Patch.Idle

/-!
Feedback. A message for a busy node waits in its queue or, when one send has made as many wait as it
may, is dropped; all others are handled, each once and those of a queue in the order of arrival.
-/
namespace Patchbay

open Traffic

/-- A delivery to a message inlet meets one fate: it is handled, queued or dropped. -/
theorem Moment.Orderly.exists_fate {w : Wiring} {t : Traffic} {d : Delivery} {rest : List Task}
    (rate : Float) (h : Moment.Orderly w ⟨t, .act (.deliver d) :: rest⟩)
    (hinlet : w.inlet? d.target d.inlet = some .message) :
    ∃ e b, (∀ e' b', Step w rate ⟨t, .act (.deliver d) :: rest⟩ e' b' ↔ e' = e ∧ b' = b) ∧
      (d.target ∉ t.busy ∧ e = .handled d ∧ (∃ node, t.nodes[d.target]? = some node ∧
          b = .handling w rate (t.enter d.target) node d rest) ∨
        d.target ∈ t.busy ∧ t.queued < maxWaiting ∧ e = .queued d ∧ b = ⟨t.enqueue d, rest⟩ ∨
        d.target ∈ t.busy ∧ maxWaiting ≤ t.queued ∧ e = .dropped d ∧ b = ⟨t, rest⟩) := by
  have only {e : Event} {b : Moment} (hs : Step w rate ⟨t, .act (.deliver d) :: rest⟩ e b) e' b' :
      Step w rate ⟨t, .act (.deliver d) :: rest⟩ e' b' ↔ e' = e ∧ b' = b :=
    ⟨fun h => h.deterministic hs, fun ⟨he, hb⟩ => he ▸ hb ▸ hs⟩
  by_cases hbusy : d.target ∈ t.busy
  · rcases Nat.lt_or_ge t.queued maxWaiting with hroom | hfull
    · exact ⟨_, _, only (.queue hinlet hbusy hroom), .inr (.inl ⟨hbusy, hroom, rfl, rfl⟩)⟩
    · exact ⟨_, _, only (.drop hinlet hbusy hfull), .inr (.inr ⟨hbusy, hfull, rfl, rfl⟩)⟩
  · obtain ⟨node, hnode⟩ := h.staffed.node_of_inlet? hinlet
    exact ⟨_, _, only (.handle hinlet hbusy hnode), .inl ⟨hbusy, rfl, node, hnode, rfl⟩⟩

/-- A message is taken from a queue by the node that it waits for, while that is still busy. -/
theorem Moment.Orderly.of_resumed {w : Wiring} {rate : Float} {a b : Moment} {d : Delivery}
    (h : a.Orderly w) (hs : Step w rate a (.resumed d) b) : d.target ∈ a.traffic.busy ∧
      ∃ others node rest, a.traffic.nodes[d.target]? = some node ∧
        b = .handling w rate (a.traffic.dequeue others) node d rest := by
  cases hs with
  | @resume t n rest d others node hwait hnode =>
    obtain rfl := target_of_takeWaiting hwait
    have hbusy : t.busy = d.target :: holders rest := h.busy
    exact ⟨by simp [hbusy], others, node, rest, hnode, rfl⟩

theorem waitingFor_of_returned {w : Wiring} {rate : Float} {a b : Moment} {n : Nat}
    (hs : Step w rate a (.returned n) b) : a.traffic.waitingFor n = [] := by
  cases hs with
  | leave hnone => exact takeWaiting_eq_none_iff.1 hnone

namespace Patch

variable {p : Patch}

theorem Idle.accounts {first : Delivery} {es : List Event} {c : Moment} (h : p.Idle)
    (hrun : Run p.wiring p.sampleRate (p.sending first) es c) :
    Accounts p.wiring first (.ofEvents es) c :=
  (Accounts.start (t := { p.traffic with queued := 0 }) rfl h.waiting).run hrun

/-- At every moment of a send, each delivery to a message inlet meets one of three fates, and each
queue has been handled from its front. The send comes to an end, and then the deliveries attempted
are the first one and those of the messages sent, and every one that was not dropped was handled. -/
theorem deliveries_accounted_for (hp : p.Reachable) {first : Delivery} {es : List Event}
    {c : Moment} (hrun : Run p.wiring p.sampleRate (p.sending first) es c) :
    let l := Ledger.ofEvents es
    (∀ d rest, c.tasks = .act (.deliver d) :: rest →
      p.wiring.inlet? d.target d.inlet = some .message →
      ∃ e b, (∀ e' b', Step p.wiring p.sampleRate c e' b' ↔ e' = e ∧ b' = b) ∧
        (d.target ∉ c.traffic.busy ∧ e = .handled d ∧
            (∃ node, c.traffic.nodes[d.target]? = some node ∧
              b = .handling p.wiring p.sampleRate (c.traffic.enter d.target) node d rest) ∨
          d.target ∈ c.traffic.busy ∧ l.queuings.length < maxWaiting ∧ e = .queued d ∧
            b.tasks = rest ∧ (∀ n, b.traffic.waitingFor n =
              c.traffic.waitingFor n ++ if d.target = n then [d] else []) ∨
          d.target ∈ c.traffic.busy ∧ l.queuings.length = maxWaiting ∧ e = .dropped d ∧
            b = ⟨c.traffic, rest⟩)) ∧
    (∀ n, l.queuings.filter (·.target = n) =
      l.resumptions.filter (·.target = n) ++ c.traffic.waitingFor n) ∧
    (∀ d b, Step p.wiring p.sampleRate c (.resumed d) b → d.target ∈ c.traffic.busy ∧
      ∃ others node rest, c.traffic.nodes[d.target]? = some node ∧
        b = .handling p.wiring p.sampleRate (c.traffic.dequeue others) node d rest) ∧
    (∀ n b, Step p.wiring p.sampleRate c (.returned n) b →
      l.resumptions.filter (·.target = n) = l.queuings.filter (·.target = n)) ∧
    l.queuings.length ≤ maxWaiting ∧ (l.drops ≠ [] → l.queuings.length = maxWaiting) ∧
    (c.traffic.log.toList =
      p.traffic.log.toList ++ if p.traffic.recording then l.sents else []) ∧
    (∀ d ∈ l.ignored, p.wiring.inlet? d.target d.inlet ≠ some .message) ∧
    (∃ more, Run p.wiring p.sampleRate c more
      ⟨(p.send first.target first.inlet first.message).traffic, []⟩) ∧
    (c.tasks = [] →
      (l.ignored ++ l.attempts).Perm (first :: l.sents.flatMap p.wiring.deliveries) ∧
      l.attempts.Perm (l.handlings ++ l.drops) ∧
      ∀ n, l.resumptions.filter (·.target = n) = l.queuings.filter (·.target = n)) := by
  have hidle := hp.idle
  have ha := hidle.accounts hrun
  have ho := (hidle.orderly_sending first).run hrun
  obtain ⟨all, hall⟩ := hidle.exists_run_send first
  obtain ⟨more, -, hmore⟩ := hall.rest_of_done rfl hrun
  obtain ⟨t, tasks⟩ := c
  have hqueued : t.queued = (Ledger.ofEvents es).queuings.length := ha.queued
  refine ⟨?_, ha.inOrder, fun d b => ho.of_resumed, ?_, ha.bound, ha.full,
    (Logged.run hrun).2, ha.ignored, ⟨more, hmore⟩, fun hdone => ?_⟩
  · rintro d rest rfl hinlet
    obtain ⟨e, b, honly, hfate⟩ := ho.exists_fate p.sampleRate hinlet
    refine ⟨e, b, honly, ?_⟩
    rcases hfate with hhandled | ⟨hbusy, hroom, he, rfl⟩ | ⟨hbusy, hfull, he, hb⟩
    · exact .inl hhandled
    · refine .inr (.inl ⟨hbusy, hqueued ▸ hroom, he, rfl, fun n => ?_⟩)
      simp [waitingFor_enqueue, hroom]
    · exact .inr (.inr ⟨hbusy, Nat.le_antisymm ha.bound (hqueued ▸ hfull), he, hb⟩)
  · intro n b hs
    have hn := ha.inOrder n
    rw [waitingFor_of_returned hs, List.append_nil] at hn
    exact hn.symm
  · have hwaiting : t.waiting = [] := (ho.idle_of_done hdone).2
    obtain rfl : tasks = [] := hdone
    refine ⟨?_, ?_, fun n => ?_⟩
    · simpa [openDeliveries, openSents] using ha.origins
    · simpa [hwaiting] using ha.fates
    · simpa [waitingFor, hwaiting] using (ha.inOrder n).symm

/-- The box of `echo` with two connections from its outlet to its inlet. -/
def chorus : Patch :=
  [.add "samplerate~" [], .connect 0 0 0 0, .connect 0 0 0 0].foldl Patch.after
    (Patch.new .builtin {})

/-- The one message that leaves the box of `chorus` is delivered over both connections. Both
deliveries find the box busy, wait in its queue, and are handled from there. -/
theorem deliveries_accounted_for_chorus : chorus.Reachable ∧
    (∃ es c d e b, Run chorus.wiring chorus.sampleRate (chorus.sending ⟨0, 0, .bang⟩) es c ∧
      d.target ∈ c.traffic.busy ∧ Step chorus.wiring chorus.sampleRate c e b ∧ e = .queued d) ∧
    ∃ es t, Run chorus.wiring chorus.sampleRate (chorus.sending ⟨0, 0, .bang⟩) es ⟨t, []⟩ ∧
      (Ledger.ofEvents es).sents.flatMap chorus.wiring.deliveries =
        [⟨0, 0, [.float 44100]⟩, ⟨0, 0, [.float 44100]⟩] ∧
      (Ledger.ofEvents es).attempts.length = 3 ∧ (Ledger.ofEvents es).queuings.length = 2 ∧
      (Ledger.ofEvents es).drops = [] ∧
      (Ledger.ofEvents es).resumptions.filter (·.target = 0) =
        (Ledger.ofEvents es).queuings.filter (·.target = 0) ∧
      ((Ledger.ofEvents es).ignored ++ (Ledger.ofEvents es).attempts).Perm (⟨0, 0, .bang⟩ ::
        (Ledger.ofEvents es).sents.flatMap chorus.wiring.deliveries) ∧
      (Ledger.ofEvents es).attempts.Perm
        ((Ledger.ofEvents es).handlings ++ (Ledger.ofEvents es).drops) := by
  have hreach : chorus.Reachable := (Reachable.new _ _).foldl_after _
  have answers : Run chorus.wiring chorus.sampleRate (chorus.sending ⟨0, 0, .bang⟩) _ _ :=
    (Run.single (.handle rfl (by decide) rfl)).step .record
  refine ⟨hreach, ?_, ?_⟩
  · have hbusy : (0 : Nat) ∈ [0] := by decide
    obtain ⟨e, b, honly, hfate⟩ := (deliveries_accounted_for hreach answers).1
      ⟨0, 0, [.float 44100]⟩ [.act (.deliver ⟨0, 0, [.float 44100]⟩), .finish 0] rfl rfl
    refine ⟨_, _, ⟨0, 0, [.float 44100]⟩, e, b, answers, hbusy, (honly e b).2 ⟨rfl, rfl⟩, ?_⟩
    rcases hfate with ⟨hidle, -⟩ | ⟨-, -, he, -⟩ | ⟨-, hfull, -⟩
    · exact absurd hbusy hidle
    · exact he
    · exact absurd hfull (by decide)
  · have waits := (answers.step (.queue rfl (by decide) (by decide))).step
      (.queue rfl (by decide) (by decide))
    have resumes := (waits.step .finish).step (.resume rfl rfl)
    have again := (resumes.step .finish).step (.resume rfl rfl)
    have ends := (again.step .finish).step (.leave rfl)
    obtain ⟨-, -, -, -, -, -, -, -, -, hdone⟩ := deliveries_accounted_for hreach ends
    obtain ⟨horigins, hfates, hqueue⟩ := hdone rfl
    exact ⟨_, _, ends, rfl, rfl, rfl, rfl, hqueue 0, horigins, hfates⟩

end Patch

end Patchbay
