import Patchbay.Proofs.Patch.Gathered
import Patchbay.Proofs.Patch.Given

/-!
What a tick computes. The outputs of the signal functions solve a system of equations, one for each:
its output is its function of what enters it. As signals never go round, the system has one solution,
whatever the order in which the nodes are computed.
-/
namespace Patchbay

namespace Patch

variable {p q r : Patch} {order done : List Nat} {n : Nat} {f : SignalFunction}

/-- The last value of an outlet, zero if it is not there. -/
def value (p : Patch) (node outlet : Nat) : Float := (p.output? node outlet).getD 0

/-- The values at the outlets satisfy the equation of every signal function. -/
def Solves (p : Patch) (own : Nat → Float) (v : Nat → Nat → Float) : Prop :=
  ∀ n f, p.traffic.nodes[n]? = some (.func f) → v n 0 = f.apply (p.wiring.entering (own n) v n 0)

/-- All that a tick relies on. -/
structure Ready (p : Patch) : Prop where
  fitted : p.Fitted
  sound : p.wiring.Sound
  busy : p.traffic.busy = []

theorem Reachable.ready (h : p.Reachable) : p.Ready := ⟨h.fitted, h.sound, h.idle.busy⟩

theorem Ready.foldlM_compute (h : p.Ready) (hfold : order.foldlM compute p = .ok q) : q.Ready := by
  obtain ⟨htraffic, hwiring⟩ := traffic_foldlM_compute hfold
  refine ⟨h.fitted.foldlM_compute hfold, ?_, ?_⟩
  · rw [hwiring]
    exact h.sound
  · rw [htraffic]
    exact h.busy

theorem Ready.source_eq_func (h : p.Ready) {c : Connection} (hc : c ∈ p.wiring.connections)
    (hkind : c.kind = .signal) :
    c.outlet = 0 ∧ ∃ f, p.traffic.nodes[c.source]? = some (.func f) := by
  have hout := (h.sound.fits c hc).1
  rw [hkind] at hout
  exact ⟨h.fitted.outlet_eq_zero hout, h.fitted.exists_func (Wiring.hasSignal_of_outlet? hout)⟩

theorem Ready.outputOf_eq (h : p.Ready) {c : Connection} (hc : c ∈ p.wiring.connections) :
    p.outputOf c = .ok (p.value c.source c.outlet) := by
  obtain ⟨a, ha, hout⟩ := Option.bind_eq_some_iff.1 (h.sound.fits c hc).1
  obtain ⟨l, hl, -, hlength⟩ := h.fitted.exists_levels ha
  have hlt : c.outlet < l.outputs.length := hlength ▸ (List.getElem?_eq_some_iff.1 hout).1
  simp [outputOf, value, output?, hl, hlt]

/-- The inputs gathered for a node are what enters its inlets. -/
theorem Ready.inputs_eq (h : p.Ready) {a : Placement} {own : List Float}
    (ha : p.wiring.placements[n]? = some a) (hown : own.length = a.jacks.inlets.length) :
    p.inputs n own = .ok (own.mapIdx fun i x => p.wiring.entering x p.value n i) := by
  have hfeeds : ∀ c ∈ p.wiring.signalsInto n,
      c.inlet < own.length ∧ p.outputOf c = .ok (p.value c.source c.outlet) := by
    intro c hc
    obtain ⟨hmem, rfl, -⟩ := Wiring.mem_signalsInto.1 hc
    have hin := (h.sound.fits c hmem).2
    simp only [Wiring.inlet?, ha, Option.bind_some] at hin
    exact ⟨hown ▸ (List.getElem?_eq_some_iff.1 hin).1, h.outputOf_eq hmem⟩
  rw [inputs, Gathering.foldlM_feed hfeeds]
  simp only [bind, Except.bind, pure, Except.pure, Gathering.after, Wiring.filter_signalsInto,
    Wiring.entering]

/-- A signal function gets a new sample, and nothing else changes. -/
theorem Ready.exists_compute (h : p.Ready) {x y : Float}
    (hnode : p.traffic.nodes[n]? = some (.func f)) (hl : p.levels[n]? = some ⟨[x], [y]⟩) :
    ∃ r, p.compute n = .ok r ∧ r = { p with levels := r.levels } ∧
      r.levels[n]? = some ⟨[x], [f.apply (p.wiring.entering x p.value n 0)]⟩ ∧
      ∀ m, m ≠ n → r.levels[m]? = p.levels[m]? := by
  obtain ⟨a, ha, hjacks⟩ := h.fitted.placement_func hnode
  have hinputs : p.inputs n [x] = .ok [p.wiring.entering x p.value n 0] :=
    h.inputs_eq ha (by rw [hjacks]; rfl)
  have hn : n < p.levels.length := (List.getElem?_eq_some_iff.1 hl).1
  refine ⟨{ p with
    levels := p.levels.set n ⟨[x], [f.apply (p.wiring.entering x p.value n 0)]⟩ },
    ?_, rfl, ?_, ?_⟩
  · simp [compute, hl, hnode, hinputs, h.busy, Node.process, bind, Except.bind, pure, Except.pure]
  · simp [hn]
  · intro m hm
    simp [List.getElem?_set_ne hm.symm]

/-- The patch `q` is `p` with a new sample of the nodes in the list, which are signal functions. -/
structure Sampled (p : Patch) (done : List Nat) (q : Patch) : Prop where
  same : q = { p with levels := q.levels }
  other : ∀ n ∉ done, q.levels[n]? = p.levels[n]?
  func : ∀ n ∈ done, ∃ f x y, p.traffic.nodes[n]? = some (.func f) ∧
    p.levels[n]? = some ⟨[x], [y]⟩ ∧
    q.levels[n]? = some ⟨[x], [f.apply (p.wiring.entering x q.value n 0)]⟩

theorem Sampled.refl (p : Patch) : p.Sampled [] p where
  same := rfl
  other _ _ := rfl
  func _ hn := absurd hn List.not_mem_nil

/-- A node that comes after all that feed it is computed from new samples. -/
theorem Sampled.snoc (h : p.Sampled done q) (hp : p.Ready) (hq : q.Ready) (hn : n ∉ done)
    (hsignal : p.wiring.HasSignal n) (hheeds : Heeds p.wiring.Drives (done ++ [n])) :
    ∃ r, q.compute n = .ok r ∧ p.Sampled (done ++ [n]) r := by
  obtain ⟨f, hnode⟩ := hp.fitted.exists_func hsignal
  obtain ⟨x, y, hl⟩ := hp.fitted.levels_func hnode
  have htraffic : q.traffic = p.traffic := by rw [h.same]
  have hwiring : q.wiring = p.wiring := by rw [h.same]
  have hlq : q.levels[n]? = some ⟨[x], [y]⟩ := (h.other n hn).trans hl
  obtain ⟨r, hcompute, hsame, hnew, hother⟩ := hq.exists_compute (htraffic ▸ hnode) hlq
  rw [hwiring] at hnew
  -- The sources of all nodes up to `n` are among those computed before `n`.
  have hentering : ∀ m ∈ done ++ [n], ∀ x, p.wiring.entering x r.value m 0 =
      p.wiring.entering x q.value m 0 := by
    intro m hm x
    apply Wiring.entering_congr
    intro c hc
    have hsource : c.source ∈ done := hheeds.mem_of_snoc hm (Wiring.drives_of_mem_signalsAt hc)
    have hne : c.source ≠ n := fun e => hn (e ▸ hsource)
    simp only [value, output?, hother _ hne]
  refine ⟨r, hcompute, ?_, ?_, ?_⟩
  · rw [hsame, h.same]
  · intro m hm
    simp only [List.mem_append, List.mem_singleton, not_or] at hm
    exact (hother m hm.2).trans (h.other m hm.1)
  · intro m hm
    rcases List.mem_append.1 hm with hdone | hlast
    · obtain ⟨f', x', y', hnode', hl', hlevels⟩ := h.func m hdone
      have hne : m ≠ n := fun e => hn (e ▸ hdone)
      refine ⟨f', x', y', hnode', hl', ?_⟩
      rw [hentering m hm, hother m hne]
      exact hlevels
    · obtain rfl := List.mem_singleton.1 hlast
      refine ⟨f, x, y, hnode, hl, ?_⟩
      rw [hentering m hm]
      exact hnew

/-- Every order in which sources come first can be computed to its end. -/
theorem Ready.exists_sampled_of_heeds (h : p.Ready) (hnodup : order.Nodup)
    (hsignal : ∀ n ∈ order, p.wiring.HasSignal n) (hheeds : Heeds p.wiring.Drives order) :
    ∃ q, order.foldlM compute p = .ok q ∧ p.Sampled order q := by
  induction order using List.reverseRecOn with
  | nil => exact ⟨p, rfl, .refl p⟩
  | append_singleton done n ih =>
    have hn : n ∉ done := fun hn =>
      (List.nodup_append.1 hnodup).2.2 n hn n List.mem_cons_self rfl
    obtain ⟨q, hfold, hq⟩ := ih (List.nodup_append.1 hnodup).1
      (fun m hm => hsignal m (List.mem_append_left _ hm)) hheeds.of_snoc.1
    obtain ⟨r, hcompute, hr⟩ :=
      hq.snoc h (h.foldlM_compute hfold) hn (hsignal n (by simp)) hheeds
    refine ⟨r, ?_, hr⟩
    simp [List.foldlM_append, hfold, hcompute, bind, Except.bind, pure, Except.pure]

section Order

variable {v v' : Nat → Nat → Float} {own : Nat → Float}

theorem Ready.mem_order_iff (h : p.Ready) (hsorts : p.wiring.signalGraph.Sorts order) (n : Nat) :
    n ∈ order ↔ p.wiring.HasSignal n := by
  rw [hsorts.mem_iff, h.sound.mem_vertices]

theorem Ready.mem_order_of_func (h : p.Ready) (hsorts : p.wiring.signalGraph.Sorts order)
    (hnode : p.traffic.nodes[n]? = some (.func f)) : n ∈ order :=
  (h.mem_order_iff hsorts n).2 (h.fitted.hasSignal_func hnode)

theorem Ready.heeds (h : p.Ready) (hsorts : p.wiring.signalGraph.Sorts order) :
    Heeds p.wiring.Drives order := h.sound.edge_eq ▸ hsorts.heeds

theorem Ready.exists_sampled (h : p.Ready) (hsorts : p.wiring.signalGraph.Sorts order) :
    ∃ q, order.foldlM compute p = .ok q ∧ p.Sampled order q :=
  h.exists_sampled_of_heeds hsorts.nodup (fun n hn => (h.mem_order_iff hsorts n).1 hn)
    (h.heeds hsorts)

/-- What enters an inlet depends on the outputs of the signal functions that drive it. -/
theorem Ready.entering_congr (h : p.Ready) {x : Float} {i : Nat}
    (hv : ∀ m f, p.wiring.Drives m n → p.traffic.nodes[m]? = some (.func f) → v m 0 = v' m 0) :
    p.wiring.entering x v n i = p.wiring.entering x v' n i := by
  apply Wiring.entering_congr
  intro c hc
  obtain ⟨hmem, -, -, hkind⟩ := Wiring.mem_signalsAt.1 hc
  obtain ⟨houtlet, f, hnode⟩ := h.source_eq_func hmem hkind
  rw [houtlet]
  exact hv c.source f (Wiring.drives_of_mem_signalsAt hc) hnode

/-- Along an order in which sources come first, each equation leaves one value. -/
theorem Solves.unique (hv : p.Solves own v) (hv' : p.Solves own v') (h : p.Ready)
    (hsorts : p.wiring.signalGraph.Sorts order) (hnode : p.traffic.nodes[n]? = some (.func f)) :
    v n 0 = v' n 0 := by
  refine (h.heeds hsorts).induction (P := fun n => ∀ f, p.traffic.nodes[n]? = some (.func f) →
    v n 0 = v' n 0) ?_ (h.mem_order_of_func hsorts hnode) f hnode
  intro n _ ih f hnode
  rw [hv n f hnode, hv' n f hnode, h.entering_congr fun m f hdrives => ih m hdrives f]

theorem Sampled.output?_eq_value (hq : p.Sampled order q) (hn : n ∈ order) :
    q.output? n 0 = some (q.value n 0) := by
  obtain ⟨f, x, y, -, -, hlq⟩ := hq.func n hn
  simp [value, output?, hlq]

theorem Sampled.solves (hq : p.Sampled order q) (h : p.Ready)
    (hsorts : p.wiring.signalGraph.Sorts order)
    (hown : ∀ n f, p.traffic.nodes[n]? = some (.func f) → p.input? n 0 = some (own n)) :
    p.Solves own q.value := by
  intro n f hnode
  obtain ⟨f', x, y, hnode', hl, hlq⟩ := hq.func n (h.mem_order_of_func hsorts hnode)
  obtain rfl := Node.func.inj (Option.some.inj (hnode.symm.trans hnode'))
  have hx : x = own n := by simpa [input?, hl] using hown n f hnode
  simp [value, output?, hlq, hx]

/-- The samples do not depend on the order. -/
theorem Sampled.unique {order' : List Nat} (hq : p.Sampled order q) (hr : p.Sampled order' r)
    (h : p.Ready) (hsorts : p.wiring.signalGraph.Sorts order)
    (hsorts' : p.wiring.signalGraph.Sorts order') : q = r := by
  have hown : ∀ n f, p.traffic.nodes[n]? = some (.func f) →
      p.input? n 0 = some ((p.input? n 0).getD 0) := by
    intro n f hnode
    obtain ⟨x, y, hl⟩ := h.fitted.levels_func hnode
    simp [input?, hl]
  have hvalue : ∀ n f, p.traffic.nodes[n]? = some (.func f) → q.value n 0 = r.value n 0 :=
    fun n f hnode => (hq.solves h hsorts hown).unique (hr.solves h hsorts' hown) h hsorts hnode
  have hlevels : q.levels = r.levels := by
    apply List.ext_getElem?
    intro n
    have hmem : n ∈ order ↔ n ∈ order' := by
      rw [h.mem_order_iff hsorts, h.mem_order_iff hsorts']
    by_cases hn : n ∈ order
    · obtain ⟨f, x, y, hnode, hl, hlq⟩ := hq.func n hn
      obtain ⟨f', x', y', hnode', hl', hlr⟩ := hr.func n (hmem.1 hn)
      obtain rfl := Node.func.inj (Option.some.inj (hnode.symm.trans hnode'))
      obtain ⟨rfl, -⟩ : x = x' ∧ y = y' := by simpa using hl.symm.trans hl'
      rw [hlq, hlr, h.entering_congr fun m f _ => hvalue m f]
    · rw [hq.other n hn, hr.other n (mt hmem.2 hn)]
  rw [hq.same, hr.same, hlevels]

end Order

/-- Samples taken again come out the same. -/
theorem Sampled.again (hq : p.Sampled order q) : q.Sampled order q where
  same := rfl
  other _ _ := rfl
  func n hn := by
    obtain ⟨f, x, y, hnode, -, hlq⟩ := hq.func n hn
    have htraffic : q.traffic = p.traffic := by rw [hq.same]
    have hwiring : q.wiring = p.wiring := by rw [hq.same]
    refine ⟨f, x, _, htraffic ▸ hnode, hlq, ?_⟩
    rw [hwiring]
    exact hlq

/-- A tick gives every signal function the value of what enters it: the new outputs connected to its
inlet, added up from the newest connection on, or the value last given to the inlet. No other values
satisfy all these equations, so the order of the nodes does not matter, and a second tick finds
nothing to change. Nodes without signal jacks keep what they have. -/
theorem tick_solves {registry : Registry} {settings : Settings} {os : List Operation}
    (hp : os.foldl Patch.after (Patch.new registry settings) = p) :
    ∃ q, p.tick = .ok q ∧
      (∀ n f, p.traffic.nodes[n]? = some (.func f) → q.output? n 0 = some (f.apply
        (p.wiring.entering (lastGiven n 0 (Patch.new registry settings) os) q.value n 0))) ∧
      (∀ c ∈ p.wiring.connections, c.kind = .signal →
        q.output? c.source c.outlet = some (q.value c.source c.outlet)) ∧
      (∀ v, p.Solves (fun n => lastGiven n 0 (Patch.new registry settings) os) v →
        ∀ n f, p.traffic.nodes[n]? = some (.func f) → q.output? n 0 = some (v n 0)) ∧
      (∀ order, p.wiring.signalGraph.Sorts order → order.foldlM compute p = .ok q) ∧
      q.tick = .ok q ∧
      ∀ n, ¬ p.wiring.HasSignal n → q.levels[n]? = p.levels[n]? := by
  have hreachable : p.Reachable := reachable_iff.2 ⟨registry, settings, os, hp⟩
  have h := hreachable.ready
  obtain ⟨order, hsort⟩ := hreachable.exists_sort
  have hsorts := Digraph.sorts_of_sort h.sound.closed hsort
  have hown : ∀ n f, p.traffic.nodes[n]? = some (.func f) →
      p.input? n 0 = some (lastGiven n 0 (Patch.new registry settings) os) := by
    intro n f hnode
    obtain ⟨a, ha, hjacks⟩ := h.fitted.placement_func hnode
    have hinlet : p.wiring.inlet? n 0 = some .signal := by
      simp [Wiring.inlet?, ha, hjacks, Jacks.inlet?]
    exact input?_eq_lastGiven hp hinlet
  obtain ⟨q, hfold, hq⟩ := h.exists_sampled hsorts
  have hsolves := hq.solves h hsorts hown
  have houtput : ∀ n f, p.traffic.nodes[n]? = some (.func f) →
      q.output? n 0 = some (q.value n 0) :=
    fun n f hnode => hq.output?_eq_value (h.mem_order_of_func hsorts hnode)
  have hwiring : q.wiring = p.wiring := by rw [hq.same]
  refine ⟨q, by simp only [Patch.tick, hsort, hfold], ?_, ?_, ?_, ?_, ?_, ?_⟩
  · intro n f hnode
    rw [houtput n f hnode, hsolves n f hnode]
  · intro c hc hkind
    obtain ⟨houtlet, f, hnode⟩ := h.source_eq_func hc hkind
    rw [houtlet]
    exact houtput c.source f hnode
  · intro v hv n f hnode
    rw [houtput n f hnode, hv.unique hsolves h hsorts hnode]
  · intro order' hsorts'
    obtain ⟨r, hfold', hr⟩ := h.exists_sampled hsorts'
    rw [hfold', hr.unique hq h hsorts' hsorts]
  · have hready := h.foldlM_compute hfold
    have hsorts' : q.wiring.signalGraph.Sorts order := hwiring ▸ hsorts
    obtain ⟨r, hfold', hr⟩ := hready.exists_sampled hsorts'
    simp only [Patch.tick, hwiring, hsort, hfold', hr.unique hq.again hready hsorts' hsorts']
  · intro n hn
    exact hq.other n (mt (h.mem_order_iff hsorts n).1 hn)

/-- Two signal functions, each given a value, of which one is connected twice to the other. -/
def doubling : List Operation :=
  [.add "abs~" [], .add "wrap~" [], .setInput 0 0 0.25, .setInput 1 0 0.125, .connect 0 0 1 0,
    .connect 0 0 1 0]

/-- The two functions of `doubling` before they are connected. -/
def valued : Patch := (pair.setInput 0 0 0.25).setInput 1 0 0.125

def doubled : Patch :=
  let c : Connection := ⟨0, 0, 1, 0, .signal⟩
  { valued with wiring := (pair.wiring.join c).join c }

theorem foldl_doubling : doubling.foldl Patch.after (Patch.new .builtin {}) = doubled := by
  have hbase : valued.wiring.Sound :=
    ((Reachable.new _ _).foldl_after [.add "abs~" [], .add "wrap~" []]).sound
  have hconnect : ∀ p : Patch, p.wiring.Sound → p.wiring.placements = pair.wiring.placements →
      (∀ c ∈ p.wiring.connections, c.source = 0) → p.connect 0 0 1 0 =
        .ok { p with wiring := p.wiring.join ⟨0, 0, 1, 0, .signal⟩ } := by
    intro p hsound hplacements hsources
    refine (connect_eq_ok_iff hsound).2 ⟨.signal, ⟨_, _, by rw [hplacements]; rfl,
      by rw [hplacements]; rfl, rfl, rfl, fun _ hback => ?_⟩, rfl⟩
    rcases Relation.ReflTransGen.cases_head hback with h | ⟨n, ⟨c, hc, -, hsource, -⟩, -⟩
    · simp at h
    · simp [hsources c hc] at hsource
  have hfirst := hconnect _ hbase rfl (fun c hc => absurd hc List.not_mem_nil)
  have hsecond := hconnect _ (sound_connect hbase hfirst) rfl
    (fun c hc => by rw [List.mem_singleton.1 hc])
  change (valued.after (.connect 0 0 1 0)).after (.connect 0 0 1 0) = doubled
  simp only [Patch.after, hfirst, hsecond]
  rfl

/-- The second of the two is fed what the first puts out twice over, and not its own value: without
a connection it would put out an eighth, and with one a quarter. -/
theorem tick_solves_doubled : doubling.foldl Patch.after (Patch.new .builtin {}) = doubled ∧
    ∃ q x, doubled.tick = .ok q ∧ q.tick = .ok q ∧
      x = SignalFunction.absolute.apply 0.25 ∧ q.output? 0 0 = some x ∧
      q.output? 1 0 = some (SignalFunction.wrap.apply (x + x)) ∧ q.output? 1 0 = some 0.5 ∧
      SignalFunction.wrap.apply x = 0.25 ∧ SignalFunction.wrap.apply 0.125 = 0.125 := by
  obtain ⟨q, htick, hsolved, -, -, -, hagain, -⟩ := tick_solves foldl_doubling
  have hx : q.output? 0 0 = some (SignalFunction.absolute.apply 0.25) := hsolved 0 .absolute rfl
  have hvalue : q.value 0 0 = SignalFunction.absolute.apply 0.25 := by rw [value, hx]; rfl
  have hy : q.output? 1 0 = some (SignalFunction.wrap.apply
      (SignalFunction.absolute.apply 0.25 + SignalFunction.absolute.apply 0.25)) := by
    rw [← hvalue]
    exact hsolved 1 .wrap rfl
  exact ⟨foldl_doubling, q, _, htick, hagain, rfl, hx, hy, hy.trans (by decide), by decide,
    by decide⟩

end Patch

end Patchbay
