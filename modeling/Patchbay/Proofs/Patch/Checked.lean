import Patchbay.Proofs.Delivery.Checked
import Patchbay.Proofs.Patch.Refusal

/-!
Requests with every access by number checked. Connections fit, every node has a slot for each of its
jacks, and the tasks of a send name nodes that are there; so as long as there are numbers for new
nodes, the checks change no reply and no patch. Storage is taken to suffice otherwise, also for
connections.
-/
namespace Patchbay

/-- As many numbers as there are for nodes: those of 32 bits. -/
def nodeNumbers : Nat := 4294967296

/-- The reply is that a node was added. -/
def Reply.isNode : Reply → Bool
  | .node _ => true
  | _ => false

namespace Patch

/-- A node under a known number must be there, and its levels as well. -/
def checkSlot (p : Patch) (n : Nat) : Except Breach Unit :=
  if n < p.wiring.size then
    match p.traffic.nodes[n]?, p.levels[n]? with
    | some _, some _ => .ok ()
    | _, _ => .error (.node n)
  else .ok ()

/-- The reply to a request and the patch afterwards, where a send goes on for a number of steps at
most. -/
def checked (steps : Nat) (p : Patch) : Request → Except Breach (Reply × Patch)
  | .change (.add nodeType args) =>
    match p.add nodeType args with
    | .ok (q, n) => if n + 1 < nodeNumbers then .ok (.node n, q) else .error .numbersUsedUp
    | .error cause => .ok (.refused cause, p)
  | .change (.connect source outlet target inlet) => do
    p.checkSlot source
    p.checkSlot target
    return p.respond (.change (.connect source outlet target inlet))
  | .change (.send node inlet m) => do
    if node < p.wiring.size then
      let last ← (p.sending ⟨node, inlet, m⟩).advanceBy p.wiring p.sampleRate steps
      return (.done, { p with traffic := last.traffic })
    else return (.done, { p with traffic := { p.traffic with queued := 0 } })
  | .change (.setInput node inlet value) => do
    p.checkSlot node
    return (.done, p.setInput node inlet value)
  | .change .tick =>
    match p.tick with
    | .ok q => .ok (.done, q)
    | .error cause => .error (.fault cause)
  | .ask (.output node outlet) => do
    p.checkSlot node
    return (.output (p.output? node outlet), p)
  | r => .ok (p.respond r)

/-- The replies to requests in turn, and the patch after them. -/
def checkedAll (steps : Nat) (p : Patch) : List Request → Except Breach (List Reply × Patch)
  | [] => .ok ([], p)
  | r :: rest => do
    let (reply, q) ← p.checked steps r
    let (replies, last) ← q.checkedAll steps rest
    return (reply :: replies, last)

variable {p q : Patch} {n : Nat}

theorem add_eq_number {nodeType : String} {args : List Atom}
    (h : p.add nodeType args = .ok (q, n)) : n = p.wiring.size ∧ q.wiring.size = n + 1 := by
  have hnumber : n = p.wiring.size := by
    simp only [Patch.add, bind, Except.bind] at h
    split at h
    · cases h
    · exact (Prod.mk.inj (Except.ok.inj h)).2.symm
  obtain ⟨made, -, rfl⟩ := add_eq_ok h
  refine ⟨hnumber, ?_⟩
  rw [hnumber]
  simp [Wiring.size, Wiring.place]

theorem size_connect {source outlet target inlet : Nat}
    (h : p.connect source outlet target inlet = .ok q) : q.wiring.size = p.wiring.size := by
  obtain ⟨w, hplacements, rfl⟩ := connect_eq_ok h
  exact congrArg List.length hplacements

/-- A node more if and only if the reply says so. -/
theorem size_respond (h : p.wiring.Sound) (r : Request) :
    (p.respond r).2.wiring.size =
      p.wiring.size + [(p.respond r).1].countP Reply.isNode := by
  cases r with
  | ask question => cases question <;> rfl
  | change o =>
    cases o with
    | add nodeType args =>
      simp only [respond]
      split
      · next hadd =>
        obtain ⟨rfl, hsize⟩ := add_eq_number hadd
        exact hsize
      · rfl
    | connect source outlet target inlet =>
      rw [respond_connect h]
      split
      · next hconnect => exact size_connect hconnect
      · rfl
    | tick =>
      simp only [respond]
      split
      · next q htick =>
        have hafter : q = p.after .tick := by simp only [Patch.after, htick]
        rcases after_tick p with hsame | ⟨order, hfold⟩
        · rw [hafter, hsame]
          rfl
        · rw [hafter, (traffic_foldlM_compute hfold).2]
          rfl
      · rfl
    | send | setInput | setArray | record | drainLog => rfl

theorem Reachable.size_following (h : p.Reachable) (requests : List Request) :
    (p.following requests).wiring.size =
      p.wiring.size + (p.replies requests).countP Reply.isNode := by
  induction requests generalizing p with
  | nil => rfl
  | cons r rest ih =>
    rw [following_cons, ih (h.respond r), size_respond h.sound, replies, Nat.add_assoc,
      ← List.countP_append]
    rfl

theorem Reachable.checkSlot (h : p.Reachable) (n : Nat) : p.checkSlot n = .ok () := by
  unfold Patch.checkSlot
  split
  · next hn =>
    have ha := List.getElem?_eq_getElem hn
    obtain ⟨node, hnode, -⟩ := h.fitted.exists_node ha
    obtain ⟨l, hl, -⟩ := h.fitted.exists_levels ha
    simp only [hnode, hl]
  · rfl

theorem Reachable.target_lt (h : p.Reachable) {c : Connection} (hc : c ∈ p.wiring.connections) :
    c.target < p.wiring.size := Wiring.lt_size_of_inlet? (h.sound.fits c hc).2

/-- Given enough steps, a send with the checks comes to the same end as without. -/
theorem Reachable.exists_checked_send (h : p.Reachable) (node inlet : Nat) (m : Message) :
    ∃ enough, ∀ steps, enough ≤ steps → p.checked steps (.change (.send node inlet m)) =
      .ok (p.respond (.change (.send node inlet m))) := by
  by_cases hnode : node < p.wiring.size
  · obtain ⟨es, hrun⟩ := h.idle.exists_run_send ⟨node, inlet, m⟩
    have haddressed : (p.sending ⟨node, inlet, m⟩).Addressed p.wiring :=
      ⟨h.idle.staffed, by simpa [sending, Task.node] using hnode⟩
    refine ⟨es.length, fun steps hsteps => ?_⟩
    have hlast := haddressed.advanceBy_of_run (fun c hc => h.target_lt hc) hrun rfl hsteps
    simp only [checked, hnode, ↓reduceIte, hlast, bind, Except.bind]
    rfl
  · refine ⟨0, fun steps _ => ?_⟩
    have hinlet : p.wiring.inlet? node inlet ≠ some .message :=
      fun hin => hnode (Wiring.lt_size_of_inlet? hin)
    simp only [checked, hnode, ↓reduceIte, Patch.respond, Patch.send]
    rw [Traffic.deliver_of_no_inlet hinlet]
    rfl

theorem Reachable.exists_tick (h : p.Reachable) : ∃ q, p.tick = .ok q := by
  obtain ⟨order, hsort⟩ := h.exists_sort
  have hsorts := Digraph.sorts_of_sort h.sound.closed hsort
  obtain ⟨q, hfold, -⟩ := h.ready.exists_sampled hsorts
  exact ⟨q, by simp only [Patch.tick, hsort, hfold]⟩

/-- While there are numbers for new nodes, no check fails. -/
theorem Reachable.exists_checked (h : p.Reachable) (r : Request)
    (hroom : (p.respond r).2.wiring.size < nodeNumbers) :
    ∃ enough, ∀ steps, enough ≤ steps → p.checked steps r = .ok (p.respond r) := by
  cases r with
  | ask question =>
    refine ⟨0, fun steps _ => ?_⟩
    cases question with
    | output node outlet => simp only [checked, h.checkSlot, bind, Except.bind]; rfl
    | loggedFrom | array | sampleRate => rfl
  | change o =>
    cases o with
    | send node inlet m => exact h.exists_checked_send node inlet m
    | add nodeType args =>
      refine ⟨0, fun steps _ => ?_⟩
      simp only [checked, Patch.respond] at hroom ⊢
      cases hadd : p.add nodeType args with
      | error cause => rfl
      | ok made =>
        obtain ⟨q, n⟩ := made
        rw [hadd] at hroom
        rw [(add_eq_number hadd).2] at hroom
        simp only [hroom, ↓reduceIte]
    | connect source outlet target inlet =>
      refine ⟨0, fun steps _ => ?_⟩
      simp only [checked, h.checkSlot, bind, Except.bind]
      rfl
    | setInput node inlet value =>
      refine ⟨0, fun steps _ => ?_⟩
      simp only [checked, h.checkSlot, bind, Except.bind]
      rfl
    | tick =>
      obtain ⟨q, htick⟩ := h.exists_tick
      exact ⟨0, fun steps _ => by simp only [checked, Patch.respond, htick]⟩
    | setArray | record | drainLog => exact ⟨0, fun steps _ => rfl⟩

theorem Reachable.exists_checkedAll (h : p.Reachable) (requests : List Request)
    (hroom : (p.following requests).wiring.size < nodeNumbers) :
    ∃ enough, ∀ steps, enough ≤ steps →
      p.checkedAll steps requests = .ok (p.replies requests, p.following requests) := by
  induction requests generalizing p with
  | nil => exact ⟨0, fun steps _ => rfl⟩
  | cons r rest ih =>
    have hq := h.respond r
    have hfirst : (p.respond r).2.wiring.size < nodeNumbers := by
      rw [following_cons, hq.size_following] at hroom
      omega
    obtain ⟨enough, hchecked⟩ := h.exists_checked r hfirst
    obtain ⟨enough', hrest⟩ := ih hq hroom
    refine ⟨max enough enough', fun steps hsteps => ?_⟩
    obtain ⟨hle, hle'⟩ := Nat.max_le.1 hsteps
    simp only [checkedAll, hchecked steps hle, bind, Except.bind, hrest steps hle']
    rfl

/-- Requests that add fewer nodes than there are numbers never ask for something that is not there:
with the checks they have the same replies and leave the same patch. In that patch every connection
joins an outlet and an inlet of its kind, every node has a slot for each of its jacks, and a tick
finds all that it reads and writes. -/
theorem no_breach (registry : Registry) (settings : Settings) (requests : List Request)
    (h : ((Patch.new registry settings).replies requests).countP Reply.isNode < nodeNumbers) :
    (∃ enough, ∀ steps, enough ≤ steps →
      (Patch.new registry settings).checkedAll steps requests =
        .ok ((Patch.new registry settings).replies requests,
          (Patch.new registry settings).following requests)) ∧
    ∀ p, (Patch.new registry settings).following requests = p →
      (∀ c ∈ p.wiring.connections, p.wiring.outlet? c.source c.outlet = some c.kind ∧
        p.wiring.inlet? c.target c.inlet = some c.kind) ∧
      (∀ (n : Nat) a, p.wiring.placements[n]? = some a → ∃ node l,
        p.traffic.nodes[n]? = some node ∧ node.kind.jacks = a.jacks ∧
        p.levels[n]? = some l ∧ l.inputs.length = a.jacks.inlets.length ∧
        l.outputs.length = a.jacks.outlets.length) ∧
      ∃ q, p.tick = .ok q := by
  have hnew := Reachable.new registry settings
  constructor
  · apply hnew.exists_checkedAll
    rw [hnew.size_following]
    simpa [Patch.new, Wiring.size, Wiring.empty] using h
  · rintro p rfl
    have hp := hnew.following requests
    refine ⟨hp.sound.fits, fun n a ha => ?_, hp.exists_tick⟩
    obtain ⟨node, hnode, hjacks⟩ := hp.fitted.exists_node ha
    obtain ⟨l, hl, hin, hout⟩ := hp.fitted.exists_levels ha
    exact ⟨node, l, hnode, hjacks, hl, hin, hout⟩

/-- An array of two cells, and a node that is to write to a sixth. -/
def outOfRange : List Request :=
  [.change (.add "tabwrite" [.symbol "a"]), .change (.setArray "a" #[1, 2]),
    .change (.send 0 1 [.float 5]), .change (.send 0 0 [.float 3])]

theorem no_breach_outOfRange :
    ((Patch.new .builtin {}).replies outOfRange).countP Reply.isNode < nodeNumbers ∧
    (∃ enough, ∀ steps, enough ≤ steps → (Patch.new .builtin {}).checkedAll steps outOfRange =
      .ok ([.node 0, .done, .done, .done], (Patch.new .builtin {}).following outOfRange)) ∧
    ∃ q, ((Patch.new .builtin {}).following outOfRange).tick = .ok q := by
  have hreplies : (Patch.new .builtin {}).replies outOfRange = [.node 0, .done, .done, .done] := rfl
  have hcount : ((Patch.new .builtin {}).replies outOfRange).countP Reply.isNode < nodeNumbers := by
    rw [hreplies]
    decide
  obtain ⟨hchecked, hslots⟩ := no_breach .builtin {} outOfRange hcount
  exact ⟨hcount, hreplies ▸ hchecked, (hslots _ rfl).2.2⟩

/-- A step is a breach where it names a node that is not there. -/
example : Moment.advance .empty 0 ⟨.idle, [.act (.record ⟨0, 0, .bang⟩)]⟩ = .error (.node 0) := rfl

end Patch

end Patchbay
