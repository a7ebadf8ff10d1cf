import Patchbay.Proofs.Delivery.Silent
import Patchbay.Proofs.Patch.Masked
import Patchbay.Proofs.Patch.Refusal

/-!
Observation. Requests that switch recording on or off, take what was recorded or ask a question
leave everything else as it is, so putting them in or leaving them out changes nothing else at any
later time. The record itself holds the messages that left nodes while recording was on, in order.
-/
namespace Patchbay

open Traffic

/-- Whether a request is about the record or only asks. -/
def Request.isObservation : Request → Bool
  | .change (.record _) => true
  | .change .drainLog => true
  | .change _ => false
  | .ask _ => true

/-- Whether recording is on after a request, if it was on or off before. -/
def Request.recordingAfter (on : Bool) : Request → Bool
  | .change (.record b) => b
  | _ => on

/-- What a reply takes out of the record. -/
def Reply.drained : Reply → List Sent
  | .log sent => sent
  | _ => []

/-- Whether the answer is looked up in the record. -/
def Question.isOfLog : Question → Bool
  | .loggedFrom _ _ => true
  | _ => false

namespace Patch

/-- The patch with nothing recorded, and nothing to be recorded. -/
def silent (p : Patch) : Patch := { p with traffic := p.traffic.silent }

/-- The requests that are no observations, each with its reply. -/
def answers (p : Patch) (requests : List Request) : List (Request × Reply) :=
  (requests.zip (p.replies requests)).filter (!·.1.isObservation)

variable {p q : Patch} {r : Request} {requests others : List Request}

theorem answers_cons (p : Patch) (r : Request) (rest : List Request) :
    p.answers (r :: rest) = (if r.isObservation then [] else [(r, (p.respond r).1)]) ++
      (p.respond r).2.answers rest := by
  cases h : r.isObservation <;> simp [answers, replies, h]

section Silent

theorem mask_silent : Traffic.Mask Traffic.silent :=
  ⟨fun _ => rfl, fun _ => rfl, fun _ _ => rfl, fun _ _ _ => rfl⟩

theorem send_silent (h : p.traffic.Staffed p.wiring) (node inlet : Nat) (m : Message) :
    p.silent.send node inlet m = (p.send node inlet m).silent := by
  have hstaffed : ({ p.traffic with queued := 0 } : Traffic).Staffed p.wiring := h
  exact congrArg (fun t => ({ p with traffic := t } : Patch)) (hstaffed.deliver_silent _)

theorem tell_silent (p : Patch) {question : Question} (h : question.isOfLog = false) :
    p.silent.tell question = p.tell question := by
  cases question with
  | loggedFrom => cases h
  | array | output | sampleRate => rfl

/-- An observation leaves all but the record as it was. -/
theorem silent_respond_of_isObservation (p : Patch) (h : r.isObservation) :
    (p.respond r).2.silent = p.silent := by
  cases r with
  | ask question => rfl
  | change o =>
    cases o with
    | record | drainLog => rfl
    | add | connect | send | setInput | setArray | tick => cases h

/-- Any other request is answered, and changes the patch, as if nothing were recorded. -/
theorem respond_silent (hp : p.traffic.Staffed p.wiring) (h : r.isObservation = false) :
    p.silent.respond r = ((p.respond r).1, (p.respond r).2.silent) := by
  cases r with
  | ask question => cases h
  | change o =>
    by_cases ho : o.isAside
    · exact respond_masked mask_silent p ho
    · cases o with
      | send node inlet m => simp only [respond, send_silent hp]
      | record | drainLog => cases h
      | add | connect | setInput | setArray | tick => exact absurd rfl ho

end Silent

/-- Without the record and without observations a patch comes to the same, and answers the same. -/
theorem following_silent (hp : p.Reachable) (requests : List Request) :
    p.silent.following (requests.filter (!·.isObservation)) = (p.following requests).silent ∧
      p.silent.answers (requests.filter (!·.isObservation)) = p.answers requests := by
  induction requests generalizing p with
  | nil => exact ⟨rfl, rfl⟩
  | cons r requests ih =>
    obtain ⟨hfollowing, hanswers⟩ := ih (hp.respond r)
    cases h : r.isObservation with
    | true =>
      have hsame := silent_respond_of_isObservation p h
      rw [List.filter_cons_of_neg (by simp [h]), ← hsame, answers_cons, if_pos h]
      exact ⟨hfollowing, hanswers⟩
    | false =>
      have hrespond := respond_silent hp.idle.staffed h
      rw [List.filter_cons_of_pos (by simp [h]), answers_cons, answers_cons, following_cons,
        hrespond, hanswers]
      exact ⟨hfollowing, rfl⟩

section Record

/-- The messages that leave nodes in answer to a request. -/
inductive Leaves (p : Patch) : Request → List Sent → Prop
  | send {node inlet : Nat} {m : Message} {es : List Event}
      (hrun : Run p.wiring p.sampleRate (p.sending ⟨node, inlet, m⟩) es
        ⟨(p.send node inlet m).traffic, []⟩) :
      Leaves p (.change (.send node inlet m)) (Ledger.ofEvents es).sents
  | other {r : Request} (hother : ∀ node inlet m, r ≠ .change (.send node inlet m)) : Leaves p r []

/-- The messages that leave nodes in answer to requests in turn, each with whether recording was on
by then. -/
inductive History : Patch → Bool → List Request → List (Bool × Sent) → Prop
  | nil (p : Patch) (on : Bool) : History p on [] []
  | cons {p : Patch} {on : Bool} {r : Request} {rest : List Request} {sents : List Sent}
      {left : List (Bool × Sent)} (hleaves : p.Leaves r sents)
      (hrest : History (p.respond r).2 (r.recordingAfter on) rest left) :
      History p on (r :: rest) (sents.map (on, ·) ++ left)

theorem Leaves.unique {sents sents' : List Sent} (h : p.Leaves r sents) (h' : p.Leaves r sents') :
    sents = sents' := by
  cases h with
  | send hrun =>
    cases h' with
    | send hrun' => rw [(hrun.eq_of_done rfl hrun' rfl).1]
    | other hother => exact absurd rfl (hother _ _ _)
  | other hother =>
    cases h' with
    | send => exact absurd rfl (hother _ _ _)
    | other => rfl

theorem Reachable.exists_leaves (hp : p.Reachable) (r : Request) : ∃ sents, p.Leaves r sents := by
  by_cases h : ∃ node inlet m, r = .change (.send node inlet m)
  · obtain ⟨node, inlet, m, rfl⟩ := h
    obtain ⟨es, hrun⟩ := hp.idle.exists_run_send ⟨node, inlet, m⟩
    exact ⟨_, .send hrun⟩
  · exact ⟨[], .other fun node inlet m hr => h ⟨node, inlet, m, hr⟩⟩

theorem History.unique {on : Bool} {left left' : List (Bool × Sent)}
    (h : History p on requests left) (h' : History p on requests left') : left = left' := by
  induction h generalizing left' with
  | nil =>
    cases h'
    rfl
  | cons hleaves _ ih =>
    cases h' with
    | cons hleaves' hrest' => rw [hleaves.unique hleaves', ih hrest']

theorem Reachable.exists_history (hp : p.Reachable) (on : Bool) (requests : List Request) :
    ∃ left, History p on requests left := by
  induction requests generalizing p on with
  | nil => exact ⟨[], .nil p on⟩
  | cons r requests ih =>
    obtain ⟨sents, hleaves⟩ := hp.exists_leaves r
    obtain ⟨left, hrest⟩ := ih (hp.respond r) (r.recordingAfter on)
    exact ⟨_, .cons hleaves hrest⟩

theorem traffic_connectInPlace (p : Patch) (source outlet target inlet : Nat) :
    (p.connectInPlace source outlet target inlet).2.traffic = p.traffic := by
  unfold connectInPlace
  split
  · rfl
  · dsimp only
    repeat' split
    all_goals rfl

theorem traffic_tick (h : p.tick = .ok q) : q.traffic = p.traffic := by
  unfold tick at h
  split at h
  · exact (traffic_foldlM_compute h).1
  · exact congrArg Patch.traffic (Except.ok.inj h).symm

/-- A request that sends nothing leaves the record and the switch, or does to them what it says. -/
theorem record_respond (hother : ∀ node inlet m, r ≠ .change (.send node inlet m)) :
    (p.respond r).2.traffic.recording = r.recordingAfter p.traffic.recording ∧
      (p.respond r).1.drained ++ (p.respond r).2.sent = p.sent := by
  cases r with
  | ask question => cases question <;> exact ⟨rfl, rfl⟩
  | change o =>
    cases o with
    | add nodeType args =>
      simp only [respond]
      cases hadd : p.add nodeType args with
      | error cause => exact ⟨rfl, rfl⟩
      | ok found =>
        obtain ⟨q, n⟩ := found
        obtain ⟨made, -, rfl⟩ := add_eq_ok hadd
        exact ⟨rfl, rfl⟩
    | connect source outlet target inlet =>
      have hsame := traffic_connectInPlace p source outlet target inlet
      simp only [respond, sent]
      generalize p.connectInPlace source outlet target inlet = made at hsame
      obtain ⟨outcome, q⟩ := made
      replace hsame : q.traffic = p.traffic := hsame
      cases outcome <;> simp [hsame, Request.recordingAfter, Reply.drained]
    | send node inlet m => exact absurd rfl (hother node inlet m)
    | setInput | setArray | record => exact ⟨rfl, rfl⟩
    | drainLog => exact ⟨rfl, List.append_nil _⟩
    | tick =>
      simp only [respond, sent]
      cases htick : p.tick with
      | error cause => exact ⟨rfl, rfl⟩
      | ok q => simp [traffic_tick htick, Request.recordingAfter, Reply.drained]

/-- The record gains what leaves nodes in answer to a request, while recording is on. -/
theorem Leaves.record_respond {sents : List Sent} (h : p.Leaves r sents) :
    (p.respond r).2.traffic.recording = r.recordingAfter p.traffic.recording ∧
      (p.respond r).1.drained ++ (p.respond r).2.sent =
        p.sent ++ if p.traffic.recording then sents else [] := by
  cases h with
  | send hrun => exact Logged.run hrun
  | other hother =>
    obtain ⟨hon, hsent⟩ := Patch.record_respond (p := p) hother
    exact ⟨hon, by simpa using hsent⟩

theorem History.drained_append_sent {left : List (Bool × Sent)}
    (h : History p p.traffic.recording requests left) :
    (p.replies requests).flatMap Reply.drained ++ (p.following requests).sent =
      p.sent ++ (left.filter (·.1)).map (·.2) := by
  generalize hon : p.traffic.recording = on at h
  induction h with
  | nil => simp [replies]
  | @cons p on r rest sents left hleaves hrest ih =>
    obtain ⟨hafter, hsent⟩ := hleaves.record_respond
    rw [hon] at hafter hsent
    have hkept : ((sents.map (on, ·)).filter (·.1)).map (·.2) = if on then sents else [] := by
      cases on <;> simp [List.filter_map, Function.comp_def]
    rw [replies, List.flatMap_cons, following_cons, List.append_assoc, ih hafter,
      ← List.append_assoc, hsent, List.append_assoc, List.filter_append, List.map_append, hkept]

end Record

/-- Two sequences of requests that differ in observations alone make the same patch but for the
record and its switch, and every other request in them is answered the same, as is every question
that is not about the record. What was taken from the record and what is still in it are together
the messages that left nodes while recording was on, in their order. -/
theorem observation_changes_nothing (registry : Registry) (settings : Settings) :
    let start := Patch.new registry settings
    (∀ requests others : List Request,
      requests.filter (!·.isObservation) = others.filter (!·.isObservation) →
        (start.following requests).silent = (start.following others).silent ∧
        start.answers requests = start.answers others ∧
        ∀ question : Question, question.isOfLog = false →
          (start.following requests).tell question = (start.following others).tell question) ∧
    ∀ requests : List Request, (∃! left, History start true requests left) ∧
      ∀ left, History start true requests left →
        (start.replies requests).flatMap Reply.drained ++ (start.following requests).sent =
          (left.filter (·.1)).map (·.2) := by
  intro start
  have hstart : start.Reachable := .new registry settings
  refine ⟨fun requests others hsame => ?_, fun requests => ⟨?_, fun left h => ?_⟩⟩
  · obtain ⟨hsilent, hanswers⟩ := following_silent hstart requests
    obtain ⟨hsilent', hanswers'⟩ := following_silent hstart others
    rw [hsame] at hsilent hanswers
    have hpatches := hsilent.symm.trans hsilent'
    refine ⟨hpatches, hanswers.symm.trans hanswers', fun question hquestion => ?_⟩
    rw [← tell_silent _ hquestion, hpatches, tell_silent _ hquestion]
  · obtain ⟨left, h⟩ := hstart.exists_history true requests
    exact ⟨left, h, fun left' h' => h'.unique h⟩
  · exact History.drained_append_sent (p := start) h

/-- A box that feeds its answers to itself, asked twice, the first time unrecorded. -/
def watched : List Request :=
  [.change (.add "samplerate~" []), .change (.record false), .change (.connect 0 0 0 0),
    .change (.send 0 0 .bang), .ask (.loggedFrom 0 0), .change (.record true),
    .change (.send 0 0 .bang), .change .drainLog]

def unwatched : List Request :=
  [.change (.add "samplerate~" []), .change (.connect 0 0 0 0), .change (.send 0 0 .bang),
    .change (.send 0 0 .bang)]

theorem observation_changes_nothing_watched :
    watched.filter (!·.isObservation) = unwatched.filter (!·.isObservation) ∧
    ((Patch.new .builtin {}).following watched).silent =
      ((Patch.new .builtin {}).following unwatched).silent ∧
    ∃ left, History (Patch.new .builtin {}) true watched left ∧
      ((Patch.new .builtin {}).replies watched).flatMap Reply.drained ++
        ((Patch.new .builtin {}).following watched).sent = (left.filter (·.1)).map (·.2) := by
  have hsame : watched.filter (!·.isObservation) = unwatched.filter (!·.isObservation) := rfl
  obtain ⟨hapart, hrecord⟩ := observation_changes_nothing .builtin {}
  obtain ⟨⟨left, hleft, -⟩, hdrained⟩ := hrecord watched
  exact ⟨hsame, (hapart watched unwatched hsame).1, left, hleft, hdrained left hleft⟩

end Patch

end Patchbay
