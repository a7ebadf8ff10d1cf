import Patchbay.Proofs.Patch.Idle

/-!
Masked traffic. Adding nodes, connecting, setting values and sampling look at the nodes of a patch,
at the busy ones and at the arrays. What else the traffic holds they neither see nor change: the
record, and the number of messages that the last send made wait.
-/
namespace Patchbay

/-- A change of the traffic that leaves the nodes, the busy ones and the arrays. -/
structure Traffic.Mask (f : Traffic → Traffic) : Prop where
  nodes : ∀ t, (f t).nodes = t.nodes
  busy : ∀ t, (f t).busy = t.busy
  place : ∀ t node, f { t with nodes := t.nodes ++ [node] } =
    { f t with nodes := (f t).nodes ++ [node] }
  put : ∀ t name values, f { t with tables := t.tables.put name values } =
    { f t with tables := (f t).tables.put name values }

/-- Whether an operation is neither a send nor about the record. -/
def Operation.isAside : Operation → Bool
  | .send .. => false
  | .record _ => false
  | .drainLog => false
  | .add .. | .connect .. | .setInput .. | .setArray .. | .tick => true

namespace Patch

variable {f : Traffic → Traffic} {p q : Patch}

def masked (f : Traffic → Traffic) (p : Patch) : Patch := { p with traffic := f p.traffic }

theorem add_masked (hf : Traffic.Mask f) (p : Patch) (nodeType : String) (args : List Atom) :
    (p.masked f).add nodeType args = (p.add nodeType args).map fun (q, n) => (q.masked f, n) := by
  have hbuild : (p.masked f).registry.build nodeType args = p.registry.build nodeType args := rfl
  unfold Patch.add
  rw [hbuild]
  cases p.registry.build nodeType args with
  | error cause => rfl
  | ok made =>
    dsimp only [bind, Except.bind, pure, Except.pure, Except.map, masked]
    rw [hf.place]

theorem connectInPlace_masked (f : Traffic → Traffic) (p : Patch)
    (source outlet target inlet : Nat) : (p.masked f).connectInPlace source outlet target inlet =
      ((p.connectInPlace source outlet target inlet).1,
        (p.connectInPlace source outlet target inlet).2.masked f) := by
  have hends : (p.masked f).ends source outlet target inlet = p.ends source outlet target inlet :=
    rfl
  unfold connectInPlace
  rw [hends]
  cases p.ends source outlet target inlet with
  | error cause => rfl
  | ok found =>
    obtain ⟨a, b, kind⟩ := found
    cases kind with
    | message => rfl
    | signal =>
      cases h : (p.wiring.signalGraph.insertEdge source target).isAcyclic <;>
        simp [masked, setSignalGraph, appendConnection, h]

theorem compute_masked (hf : Traffic.Mask f) (p : Patch) (n : Nat) :
    (p.masked f).compute n = (p.compute n).map (masked f) := by
  have hlevels : (p.masked f).levels = p.levels := rfl
  have hnodes : (p.masked f).traffic.nodes = p.traffic.nodes := hf.nodes p.traffic
  have hbusy : (p.masked f).traffic.busy = p.traffic.busy := hf.busy p.traffic
  have hinputs (own : List Float) : (p.masked f).inputs n own = p.inputs n own := rfl
  unfold compute
  rw [hlevels, hnodes, hbusy]
  cases p.levels[n]? with
  | none => rfl
  | some levels =>
    cases p.traffic.nodes[n]? with
    | none => rfl
    | some node =>
      dsimp only
      rw [hinputs]
      cases p.inputs n levels.inputs with
      | error cause => rfl
      | ok inputs =>
        by_cases hn : n ∈ p.traffic.busy
        · simp [hn, bind, Except.bind, pure, Except.pure, Except.map]
        · simp only [hn, bind, Except.bind, if_false]
          cases node.process inputs levels.outputs <;> rfl

theorem foldlM_compute_masked (hf : Traffic.Mask f) (p : Patch) (order : List Nat) :
    order.foldlM compute (p.masked f) = (order.foldlM compute p).map (masked f) := by
  induction order generalizing p with
  | nil => rfl
  | cons n order ih =>
    rw [List.foldlM_cons, List.foldlM_cons, compute_masked hf]
    cases p.compute n with
    | error cause => rfl
    | ok q => exact ih q

theorem tick_masked (hf : Traffic.Mask f) (p : Patch) :
    (p.masked f).tick = p.tick.map (masked f) := by
  have hsort : (p.masked f).wiring.signalGraph.sort = p.wiring.signalGraph.sort := rfl
  unfold tick
  rw [hsort]
  cases p.wiring.signalGraph.sort with
  | error n => rfl
  | ok order => exact foldlM_compute_masked hf p order

/-- Such an operation is answered, and changes the patch, as if there were no mask. -/
theorem respond_masked (hf : Traffic.Mask f) (p : Patch) {o : Operation} (ho : o.isAside) :
    (p.masked f).respond (.change o) =
      ((p.respond (.change o)).1, (p.respond (.change o)).2.masked f) := by
  cases o with
  | add nodeType args =>
    simp only [respond, add_masked hf]
    cases p.add nodeType args <;> rfl
  | connect source outlet target inlet =>
    simp only [respond, connectInPlace_masked]
    obtain ⟨outcome, q⟩ := p.connectInPlace source outlet target inlet
    cases outcome <;> rfl
  | setInput => rfl
  | setArray name values =>
    dsimp only [respond, Patch.setArray, masked]
    rw [hf.put]
  | tick =>
    simp only [respond, tick_masked hf]
    cases p.tick <;> rfl
  | send | record | drainLog => cases ho

section Settled

/-- The patch as if the last send had made no message wait. -/
def settled (p : Patch) : Patch := p.masked fun t => { t with queued := 0 }

theorem mask_settled : Traffic.Mask fun t => { t with queued := 0 } :=
  ⟨fun _ => rfl, fun _ => rfl, fun _ _ => rfl, fun _ _ _ => rfl⟩

/-- No reply depends on how many messages the last send made wait, and each send counts anew. -/
theorem respond_settled (p : Patch) (r : Request) :
    (p.settled.respond r).1 = (p.respond r).1 ∧
      (p.settled.respond r).2.settled = (p.respond r).2.settled := by
  cases r with
  | ask question => cases question <;> exact ⟨rfl, rfl⟩
  | change o =>
    by_cases ho : o.isAside
    · have hmasked : p.settled.respond (.change o) =
          ((p.respond (.change o)).1, (p.respond (.change o)).2.settled) :=
        respond_masked mask_settled p ho
      rw [hmasked]
      exact ⟨rfl, rfl⟩
    · cases o with
      | send | record | drainLog => exact ⟨rfl, rfl⟩
      | add | connect | setInput | setArray | tick => exact absurd rfl ho

theorem replies_of_settled_eq (h : p.settled = q.settled) (requests : List Request) :
    p.replies requests = q.replies requests := by
  induction requests generalizing p q with
  | nil => rfl
  | cons r rest ih =>
    obtain ⟨hp, hp'⟩ := p.respond_settled r
    obtain ⟨hq, hq'⟩ := q.respond_settled r
    rw [h] at hp hp'
    rw [replies, replies, ← hp, hq, ih (hp'.symm.trans hq')]

end Settled

end Patch

end Patchbay
