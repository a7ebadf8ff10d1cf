import Patchbay.Proofs.Delivery.Confined
import Patchbay.Proofs.Patch.Masked

/-!
What a send leaves alone: the nodes that the message cannot come to, the connections, the signals,
the arrays themselves, and every cell that no node on the way has written. A send that finds no
message inlet changes nothing that a later request could show.
-/
namespace Patchbay.Patch

open Relation

variable {p : Patch} {node inlet : Nat}

theorem confined_sending (p : Patch) (d : Delivery) :
    (p.sending d).Confined p.wiring d.target p.traffic := by
  have h := Moment.Confined.of_delivery (w := p.wiring) { p.traffic with queued := 0 } d
  exact ⟨h.tasks, h.nodes, h.waiting, h.kinds⟩

theorem send_of_no_inlet (hinlet : p.wiring.inlet? node inlet ≠ some .message) (m : Message) :
    p.send node inlet m = p.settled :=
  congrArg (fun traffic => { p with traffic }) (Traffic.deliver_of_no_inlet hinlet)

/-- At every moment of a send, the nodes that cannot be reached from the one that it goes to are as
before, and so are their queues; the arrays are those from before, of the same sizes; and a cell that
has changed was written by a node that can be reached, as it took up a number for that cell. The
connections, the signals and the kinds of the nodes stay. A send to something that is no message
inlet is recorded nowhere and makes no difference to any reply. -/
theorem send_confined (hp : p.Reachable) (node inlet : Nat) (m : Message) :
    (∃ es, Run p.wiring p.sampleRate (p.sending ⟨node, inlet, m⟩) es
      ⟨(p.send node inlet m).traffic, []⟩) ∧
    (∀ es c, Run p.wiring p.sampleRate (p.sending ⟨node, inlet, m⟩) es c →
      (∀ n, ¬ ReflTransGen p.wiring.Feeds node n →
        c.traffic.nodes[n]? = p.traffic.nodes[n]? ∧
        c.traffic.waitingFor n = p.traffic.waitingFor n) ∧
      (∀ name, (c.traffic.tables.get? name).map Array.size = (p.array? name).map Array.size) ∧
      (∀ name i, c.traffic.tables.cell? name i ≠ p.traffic.tables.cell? name i →
        ∃ n, ReflTransGen p.wiring.Feeds node n ∧
          Written p.wiring p.sampleRate (p.sending ⟨node, inlet, m⟩) es n name i) ∧
      ((∀ n found, ReflTransGen p.wiring.Feeds node n → p.traffic.nodes[n]? = some found →
        found.kind ≠ .tableWrite) → c.traffic.tables = p.traffic.tables)) ∧
    ((p.send node inlet m).wiring = p.wiring ∧ (p.send node inlet m).levels = p.levels ∧
      (p.send node inlet m).traffic.nodes.map (·.kind) = p.traffic.nodes.map (·.kind)) ∧
    (p.wiring.inlet? node inlet ≠ some .message →
      p.send node inlet m = { p with traffic := { p.traffic with queued := 0 } } ∧
      (p.send node inlet m).sent = p.sent ∧
      ∀ requests, (p.send node inlet m).replies requests = p.replies requests) := by
  have hconfined := p.confined_sending ⟨node, inlet, m⟩
  obtain ⟨all, hall⟩ := hp.idle.exists_run_send ⟨node, inlet, m⟩
  have hkinds := (hconfined.run hall).kinds
  refine ⟨⟨all, hall⟩, fun es c hrun => ?_, ⟨rfl, rfl, hkinds⟩, fun hinlet => ?_⟩
  · have hc := hconfined.run hrun
    refine ⟨fun n hn => ⟨hc.nodes n hn, hc.waiting n hn⟩, hrun.size_tables, fun name i hcell => ?_,
      fun hwriters => hconfined.tables_eq hwriters hrun⟩
    obtain ⟨n, hwritten⟩ := hrun.exists_written hcell
    exact ⟨n, hconfined.ahead_of_written hwritten, hwritten⟩
  · have hsame := send_of_no_inlet hinlet m
    have hsent : (p.send node inlet m).sent = p.settled.sent := congrArg sent hsame
    have hsettled : (p.send node inlet m).settled = p.settled.settled := congrArg settled hsame
    exact ⟨hsame, hsent, replies_of_settled_eq hsettled⟩

/-- A node that answers with the sample rate, another that writes the answer to an array, and a third
that could write to the same array. -/
def meter : Patch :=
  [.setArray "t" #[0, 0], .add "samplerate~" [], .add "tabwrite" [.symbol "t"],
    .add "tabwrite" [.symbol "t"], .connect 0 0 1 0].foldl Patch.after (Patch.new .builtin {})

theorem send_confined_meter : meter.Reachable ∧ ¬ ReflTransGen meter.wiring.Feeds 0 2 ∧
    (∃ es c, Run meter.wiring meter.sampleRate (meter.sending ⟨0, 0, .bang⟩) es c ∧
      c.traffic.tables.cell? "t" 0 ≠ meter.traffic.tables.cell? "t" 0 ∧
      c.traffic.nodes[2]? = meter.traffic.nodes[2]? ∧
      ∃ n, ReflTransGen meter.wiring.Feeds 0 n ∧
        Written meter.wiring meter.sampleRate (meter.sending ⟨0, 0, .bang⟩) es n "t" 0) ∧
    meter.wiring.inlet? 0 1 ≠ some .message ∧
    ∀ requests, (meter.send 0 1 .bang).replies requests = meter.replies requests := by
  have hreach : meter.Reachable := (Reachable.new _ _).foldl_after _
  have hapart : ¬ ReflTransGen meter.wiring.Feeds 0 2 := by
    intro h
    rcases h.cases_tail with h | ⟨n, -, c, hc, -, -, htarget⟩
    · cases h
    · have htargets : ∀ c ∈ meter.wiring.connections, c.target ≠ 2 := by decide
      exact htargets c hc htarget
  have hinlet : meter.wiring.inlet? 0 1 ≠ some .message := by decide
  have answers : Run meter.wiring meter.sampleRate (meter.sending ⟨0, 0, .bang⟩) _ _ :=
    (Run.single (.handle rfl (by decide) rfl)).step .record
  have writes := answers.step (.handle rfl (by decide) rfl)
  obtain ⟨-, hrun, -, -⟩ := send_confined hreach 0 0 .bang
  obtain ⟨hothers, -, hcells, -⟩ := hrun _ _ writes
  obtain ⟨-, -, -, hmissing⟩ := send_confined hreach 0 1 .bang
  have hcell : (some 44100 : Option Float) ≠ some 0 := by decide
  exact ⟨hreach, hapart, ⟨_, _, writes, hcell, (hothers 2 hapart).1, hcells "t" 0 hcell⟩, hinlet,
    (hmissing hinlet).2.2⟩

end Patchbay.Patch
