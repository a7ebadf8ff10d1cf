import Patchbay.Proofs.Delivery.Accounts
import Patchbay.Proofs.Delivery.Local
import Patchbay.Proofs.Patch.Confined

/-!
Independent sends. Two sends that have no node in common and that write no array can change places:
each does the same after the other as without it.
-/
namespace Patchbay.Patch

open Relation

variable {p : Patch} {a b : Nat}

/-- No node can be reached from both. -/
def Apart (p : Patch) (a b : Nat) : Prop :=
  ∀ n, ¬ (ReflTransGen p.wiring.Feeds a n ∧ ReflTransGen p.wiring.Feeds b n)

theorem Apart.symm (h : p.Apart a b) : p.Apart b a := fun n hn => h n hn.symm

/-- No node that writes arrays can be reached. -/
def WritesNothing (p : Patch) (a : Nat) : Prop :=
  ∀ n found, ReflTransGen p.wiring.Feeds a n → p.traffic.nodes[n]? = some found →
    found.kind ≠ .tableWrite

theorem Idle.nodes_send (h : p.Idle) {n : Nat} (hn : ¬ ReflTransGen p.wiring.Feeds a n)
    (inlet : Nat) (m : Message) : (p.send a inlet m).traffic.nodes[n]? = p.traffic.nodes[n]? := by
  obtain ⟨es, hrun⟩ := h.exists_run_send ⟨a, inlet, m⟩
  exact ((p.confined_sending ⟨a, inlet, m⟩).run hrun).nodes n hn

theorem Idle.tables_send (h : p.Idle) (hwrites : p.WritesNothing a) (inlet : Nat) (m : Message) :
    (p.send a inlet m).traffic.tables = p.traffic.tables := by
  obtain ⟨es, hrun⟩ := h.exists_run_send ⟨a, inlet, m⟩
  exact (p.confined_sending ⟨a, inlet, m⟩).tables_eq hwrites hrun

theorem Idle.recording_send (h : p.Idle) (node inlet : Nat) (m : Message) :
    (p.send node inlet m).traffic.recording = p.traffic.recording := by
  obtain ⟨es, hrun⟩ := h.exists_run_send ⟨node, inlet, m⟩
  exact (Logged.run hrun).1

/-- After an independent send, a send begins from what is the same for it. -/
theorem Idle.alike_sending (h : p.Idle) (hapart : p.Apart a b) (hwrites : p.WritesNothing b)
    (inlet inlet' : Nat) (m m' : Message) : (p.sending ⟨a, inlet, m⟩).traffic.Alike p.wiring a
      ((p.send b inlet' m').sending ⟨a, inlet, m⟩).traffic where
  nodes n hn := h.nodes_send (fun hb => hapart n ⟨hn, hb⟩) inlet' m'
  tables := h.tables_send hwrites inlet' m'
  busy := (h.send b inlet' m').busy.trans h.busy.symm
  waiting := (h.send b inlet' m').waiting.trans h.waiting.symm
  queued := rfl

/-- After an independent send, a send leaves the nodes that it comes to as it does without that, and
records the same. -/
theorem Idle.send_after (h : p.Idle) (hapart : p.Apart a b) (hwrites : p.WritesNothing b)
    (inlet inlet' : Nat) (m m' : Message) :
    let after := p.send b inlet' m'
    (p.send a inlet m).traffic.Alike p.wiring a (after.send a inlet m).traffic ∧
      ∃ sents, (p.send a inlet m).sent = p.sent ++ sents ∧
        (after.send a inlet m).sent = after.sent ++ sents := by
  intro after
  obtain ⟨es, hrun⟩ := h.exists_run_send ⟨a, inlet, m⟩
  obtain ⟨u, hrun', hu⟩ := (h.alike_sending hapart hwrites inlet inlet' m m').run
    (p.confined_sending ⟨a, inlet, m⟩) hrun
  -- The run that goes along with the first send is the whole of the second one.
  obtain ⟨es', hall⟩ := (h.send b inlet' m').exists_run_send ⟨a, inlet, m⟩
  obtain ⟨rfl, hend⟩ := hall.eq_of_done rfl hrun' rfl
  obtain rfl : (after.send a inlet m).traffic = u := congrArg Moment.traffic hend
  have hsent : (p.send a inlet m).sent =
      p.sent ++ if p.traffic.recording then (Ledger.ofEvents es').sents else [] :=
    (Logged.run hrun).2
  have hsent' : (after.send a inlet m).sent =
      after.sent ++ if after.traffic.recording then (Ledger.ofEvents es').sents else [] :=
    (Logged.run hall).2
  rw [h.recording_send b inlet' m'] at hsent'
  exact ⟨hu, _, hsent, hsent'⟩

/-- Two independent sends have the same nodes as their outcome in either order. -/
theorem Idle.nodes_send_send (h : p.Idle) (hapart : p.Apart a b) (ha : p.WritesNothing a)
    (hb : p.WritesNothing b) (inlet inlet' : Nat) (m m' : Message) :
    ((p.send a inlet m).send b inlet' m').traffic.nodes =
      ((p.send b inlet' m').send a inlet m).traffic.nodes := by
  obtain ⟨hfirst, -⟩ := h.send_after hapart hb inlet inlet' m m'
  obtain ⟨hsecond, -⟩ := h.send_after hapart.symm ha inlet' inlet m' m
  refine List.ext_getElem? fun n => ?_
  by_cases hn : ReflTransGen p.wiring.Feeds a n
  · have hn' : ¬ ReflTransGen p.wiring.Feeds b n := fun hb => hapart n ⟨hn, hb⟩
    calc ((p.send a inlet m).send b inlet' m').traffic.nodes[n]?
        = (p.send a inlet m).traffic.nodes[n]? := (h.send a inlet m).nodes_send hn' inlet' m'
      _ = ((p.send b inlet' m').send a inlet m).traffic.nodes[n]? := (hfirst.nodes n hn).symm
  · by_cases hn' : ReflTransGen p.wiring.Feeds b n
    · calc ((p.send a inlet m).send b inlet' m').traffic.nodes[n]?
          = (p.send b inlet' m').traffic.nodes[n]? := hsecond.nodes n hn'
        _ = ((p.send b inlet' m').send a inlet m).traffic.nodes[n]? :=
          ((h.send b inlet' m').nodes_send hn inlet m).symm
    · calc ((p.send a inlet m).send b inlet' m').traffic.nodes[n]?
          = (p.send a inlet m).traffic.nodes[n]? := (h.send a inlet m).nodes_send hn' inlet' m'
        _ = p.traffic.nodes[n]? := h.nodes_send hn inlet m
        _ = (p.send b inlet' m').traffic.nodes[n]? := (h.nodes_send hn' inlet' m').symm
        _ = ((p.send b inlet' m').send a inlet m).traffic.nodes[n]? :=
          ((h.send b inlet' m').nodes_send hn inlet m).symm

/-- Sends that have no node in common and that come to no node that writes arrays can change places.
The nodes, the arrays and the signals are the same afterwards, each send records the same first as
second, and no later request tells the outcomes apart once the record is drained. -/
theorem sends_commute (hp : p.Reachable) (hapart : p.Apart a b) (ha : p.WritesNothing a)
    (hb : p.WritesNothing b) (inlet inlet' : Nat) (m m' : Message) :
    let first := p.send a inlet m
    let second := p.send b inlet' m'
    let ab := first.send b inlet' m'
    let ba := second.send a inlet m
    (ab.traffic.nodes = ba.traffic.nodes ∧ ab.traffic.tables = ba.traffic.tables ∧
      ab.levels = ba.levels ∧ ab.wiring = ba.wiring) ∧
    (∃ la lb, first.sent = p.sent ++ la ∧ second.sent = p.sent ++ lb ∧
      ab.sent = p.sent ++ (la ++ lb) ∧ ba.sent = p.sent ++ (lb ++ la)) ∧
    ∀ requests, ab.drainLog.2.replies requests = ba.drainLog.2.replies requests := by
  intro first second ab ba
  have h := hp.idle
  obtain ⟨hfirst, la, hla, hba⟩ := h.send_after hapart hb inlet inlet' m m'
  obtain ⟨hsecond, lb, hlb, hab⟩ := h.send_after hapart.symm ha inlet' inlet m' m
  have hnodes : ab.traffic.nodes = ba.traffic.nodes :=
    h.nodes_send_send hapart ha hb inlet inlet' m m'
  have htables : ab.traffic.tables = ba.traffic.tables :=
    calc ab.traffic.tables = second.traffic.tables := hsecond.tables
      _ = p.traffic.tables := h.tables_send hb inlet' m'
      _ = first.traffic.tables := (h.tables_send ha inlet m).symm
      _ = ba.traffic.tables := hfirst.tables.symm
  have hidle : ab.Idle := (h.send a inlet m).send b inlet' m'
  have hidle' : ba.Idle := (h.send b inlet' m').send a inlet m
  have hrecording : ab.traffic.recording = ba.traffic.recording :=
    calc ab.traffic.recording = first.traffic.recording := (h.send _ _ _).recording_send _ _ _
      _ = p.traffic.recording := h.recording_send _ _ _
      _ = second.traffic.recording := (h.recording_send _ _ _).symm
      _ = ba.traffic.recording := ((h.send _ _ _).recording_send _ _ _).symm
  refine ⟨⟨hnodes, htables, rfl, rfl⟩, ⟨la, lb, hla, hlb, ?_, ?_⟩, replies_of_settled_eq ?_⟩
  · rw [hab, hla, List.append_assoc]
  · rw [hba, hlb, List.append_assoc]
  · have htraffic : { ab.traffic with log := #[], queued := 0 } =
        { ba.traffic with log := #[], queued := 0 } := by
      dsimp only
      rw [hnodes, htables, hrecording, hidle.busy, hidle'.busy, hidle.waiting, hidle'.waiting]
    exact congrArg (fun traffic => { p with traffic }) htraffic

/-- Two boxes, each of which answers with the sample rate and feeds its answers to itself. -/
def echoes : Patch :=
  [.add "samplerate~" [], .add "samplerate~" [], .connect 0 0 0 0, .connect 1 0 1 0].foldl
    Patch.after (Patch.new .builtin {})

/-- The boxes have no node in common. Each records its answer, in the order of the sends. -/
theorem sends_commute_echoes : echoes.Reachable ∧ echoes.Apart 0 1 ∧ echoes.WritesNothing 0 ∧
    echoes.WritesNothing 1 ∧ ∃ lb,
      (echoes.send 1 0 .bang).sent = lb ∧
      ((echoes.send 0 0 .bang).send 1 0 .bang).sent = [⟨0, 0, [.float 44100]⟩] ++ lb ∧
      ((echoes.send 1 0 .bang).send 0 0 .bang).sent = lb ++ [⟨0, 0, [.float 44100]⟩] := by
  have hreach : echoes.Reachable := (Reachable.new _ _).foldl_after _
  have hahead (n m : Nat) (h : ReflTransGen echoes.wiring.Feeds n m) : m = n := by
    have hself : ∀ c ∈ echoes.wiring.connections, c.target = c.source := by decide
    induction h with
    | refl => rfl
    | tail _ hfeed ih =>
      obtain ⟨c, hc, -, rfl, rfl⟩ := hfeed
      exact (hself c hc).trans ih
  have hapart : echoes.Apart 0 1 := fun n ⟨h, h'⟩ => by
    have := hahead _ _ h
    have := hahead _ _ h'
    omega
  have hwrites (n : Nat) : echoes.WritesNothing n := fun k found _ hfound => by
    have hkinds : ∀ node ∈ echoes.traffic.nodes, node.kind ≠ .tableWrite := by decide
    exact hkinds found (List.mem_of_getElem? hfound)
  have handles : Run echoes.wiring echoes.sampleRate (echoes.sending ⟨0, 0, .bang⟩) _ _ :=
    .single (.handle rfl (by decide) rfl)
  have waits := (handles.step .record).step (.queue rfl (by decide) (by decide))
  have resumes := (waits.step .finish).step (.resume rfl rfl)
  have ends := (resumes.step .finish).step (.leave rfl)
  obtain ⟨es, hall⟩ := hreach.idle.exists_run_send ⟨0, 0, .bang⟩
  have hend := congrArg (·.traffic.log.toList) (hall.eq_of_done rfl ends rfl).2
  obtain ⟨-, ⟨la, lb, hla, hlb, hab, hba⟩, -⟩ :=
    sends_commute hreach hapart (hwrites 0) (hwrites 1) 0 0 .bang .bang
  obtain rfl : [⟨0, 0, [.float 44100]⟩] = la := hend.symm.trans hla
  exact ⟨hreach, hapart, hwrites 0, hwrites 1, lb, hlb, hab, hba⟩

end Patchbay.Patch
