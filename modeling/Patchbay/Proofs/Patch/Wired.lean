import Patchbay.Proofs.Digraph.Order
import Patchbay.Proofs.Patch.Idle

/-!
Which connections can be made. The signal graph that a wiring keeps shows its signal connections and
has no cycle, so a connection is refused for a loop exactly if signals already lead back, and the
signals of a patch can always be computed in some order.
-/
namespace Patchbay

open Relation

theorem getElem?_snoc {α : Type} (l : List α) (a : α) (n : Nat) :
    (l ++ [a])[n]? = if n = l.length then some a else l[n]? := by
  rcases Nat.lt_trichotomy n l.length with hn | rfl | hn
  · rw [List.getElem?_append_left hn, if_neg (Nat.ne_of_lt hn)]
  · simp
  · have hlength : (l ++ [a]).length ≤ n := by simpa using Nat.succ_le_of_lt hn
    rw [if_neg (Nat.ne_of_gt hn), List.getElem?_eq_none hlength,
      List.getElem?_eq_none (Nat.le_of_lt hn)]

namespace Jacks

variable {j : Jacks} {i o : Nat}

theorem anySignal_of_inlet? (h : j.inlet? i = some .signal) : j.anySignal = true :=
  List.any_eq_true.2 ⟨.signal, List.mem_append_left _ (List.mem_of_getElem? h), rfl⟩

theorem anySignal_of_outlet? (h : j.outlet? o = some .signal) : j.anySignal = true :=
  List.any_eq_true.2 ⟨.signal, List.mem_append_right _ (List.mem_of_getElem? h), rfl⟩

end Jacks

namespace Wiring

variable {w : Wiring} {c : Connection} {n : Nat} {kind : JackKind}

/-- A signal connection leads from one node to the other. -/
def Drives (w : Wiring) (a b : Nat) : Prop :=
  ∃ c ∈ w.connections, c.kind = .signal ∧ c.source = a ∧ c.target = b

def HasSignal (w : Wiring) (n : Nat) : Prop :=
  ∃ p, w.placements[n]? = some p ∧ p.jacks.anySignal = true

/-- The connection joins two jacks of its kind. -/
def Fits (w : Wiring) (c : Connection) : Prop :=
  w.outlet? c.source c.outlet = some c.kind ∧ w.inlet? c.target c.inlet = some c.kind

/-- All connections fit, and the signal graph shows those that carry signals, without a cycle. -/
structure Sound (w : Wiring) : Prop where
  fits : ∀ c ∈ w.connections, w.Fits c
  mem_vertices : ∀ n, n ∈ w.signalGraph.vertices ↔ w.HasSignal n
  edge : ∀ a b, w.signalGraph.Edge a b ↔ w.Drives a b
  acyclic : w.signalGraph.Acyclic

theorem sound_empty : Wiring.empty.Sound where
  fits _ hc := absurd hc List.not_mem_nil
  mem_vertices n := ⟨fun h => absurd h List.not_mem_nil, fun ⟨p, hp, _⟩ => by simp [empty] at hp⟩
  edge a b := ⟨fun h => absurd h List.not_mem_nil, fun ⟨c, hc, _⟩ => absurd hc List.not_mem_nil⟩
  acyclic n hn := by
    obtain ⟨m, hm, -⟩ := TransGen.head'_iff.1 hn
    exact absurd hm List.not_mem_nil

theorem hasSignal_of_outlet? {o : Nat} (h : w.outlet? n o = some .signal) : w.HasSignal n := by
  obtain ⟨p, hp, ho⟩ := Option.bind_eq_some_iff.1 h
  exact ⟨p, hp, Jacks.anySignal_of_outlet? ho⟩

theorem hasSignal_of_inlet? {i : Nat} (h : w.inlet? n i = some .signal) : w.HasSignal n := by
  obtain ⟨p, hp, hi⟩ := Option.bind_eq_some_iff.1 h
  exact ⟨p, hp, Jacks.anySignal_of_inlet? hi⟩

theorem Sound.edge_eq (h : w.Sound) : w.signalGraph.Edge = w.Drives := by
  funext a b
  exact propext (h.edge a b)

theorem Sound.closed (h : w.Sound) : w.signalGraph.Closed := by
  intro a b hab
  obtain ⟨c, hc, hkind, rfl, rfl⟩ := (h.edge a b).1 hab
  obtain ⟨hout, hin⟩ := h.fits c hc
  rw [hkind] at hout hin
  exact ⟨(h.mem_vertices _).2 (hasSignal_of_outlet? hout),
    (h.mem_vertices _).2 (hasSignal_of_inlet? hin)⟩

theorem getElem?_place (w : Wiring) (p : Placement) (n : Nat) :
    (w.place p).placements[n]? = if n = w.size then some p else w.placements[n]? :=
  getElem?_snoc w.placements p n

theorem getElem?_place_of_some {p q : Placement} (h : w.placements[n]? = some q) :
    (w.place p).placements[n]? = some q := by
  have hn : n < w.size := (List.getElem?_eq_some_iff.1 h).1
  rw [getElem?_place, if_neg (Nat.ne_of_lt hn), h]

theorem Fits.place (h : w.Fits c) (p : Placement) : (w.place p).Fits c := by
  obtain ⟨hout, hin⟩ := h
  obtain ⟨a, ha, hout⟩ := Option.bind_eq_some_iff.1 hout
  obtain ⟨b, hb, hin⟩ := Option.bind_eq_some_iff.1 hin
  exact ⟨Option.bind_eq_some_iff.2 ⟨a, getElem?_place_of_some ha, hout⟩,
    Option.bind_eq_some_iff.2 ⟨b, getElem?_place_of_some hb, hin⟩⟩

theorem hasSignal_place (w : Wiring) (p : Placement) (n : Nat) :
    (w.place p).HasSignal n ↔ w.HasSignal n ∨ n = w.size ∧ p.jacks.anySignal = true := by
  unfold HasSignal
  rw [getElem?_place]
  by_cases hn : n = w.size
  · subst hn
    simp [size]
  · simp [hn]

theorem edge_place (w : Wiring) (p : Placement) :
    (w.place p).signalGraph.Edge = w.signalGraph.Edge := by
  unfold place
  dsimp only
  split <;> rfl

theorem Sound.place (h : w.Sound) (p : Placement) : (w.place p).Sound where
  fits c hc := (h.fits c hc).place p
  mem_vertices n := by
    rw [hasSignal_place, ← h.mem_vertices]
    by_cases hp : p.jacks.anySignal = true <;> simp [Wiring.place, hp]
  edge a b := by
    rw [edge_place]
    exact h.edge a b
  acyclic := by
    unfold Digraph.Acyclic
    rw [edge_place]
    exact h.acyclic

theorem drives_join (w : Wiring) (c : Connection) (a b : Nat) : (w.join c).Drives a b ↔
    w.Drives a b ∨ c.kind = .signal ∧ c.source = a ∧ c.target = b := by
  simp [Drives, join, or_and_right, exists_or]

theorem Sound.join (h : w.Sound) (hfits : w.Fits c)
    (hacyclic : c.kind = .signal → (w.join c).signalGraph.Acyclic) : (w.join c).Sound where
  fits d hd := by
    rcases List.mem_append.1 hd with hd | hd
    · exact h.fits d hd
    · exact List.mem_singleton.1 hd ▸ hfits
  mem_vertices n := by
    rw [show (w.join c).HasSignal n ↔ w.HasSignal n from Iff.rfl, ← h.mem_vertices]
    by_cases hkind : c.kind = .signal <;> simp [Wiring.join, hkind]
  edge a b := by
    rw [drives_join, ← h.edge]
    by_cases hkind : c.kind = .signal
    · simp only [Wiring.join, hkind, ↓reduceIte, Digraph.edge_addEdge, true_and]
      tauto
    · simp [Wiring.join, hkind]
  acyclic := by
    by_cases hkind : c.kind = .signal
    · exact hacyclic hkind
    · simpa [Wiring.join, hkind] using h.acyclic

theorem signalGraph_join (hkind : c.kind = .signal) :
    (w.join c).signalGraph = w.signalGraph.addEdge c.source c.target := by
  simp [join, hkind]

theorem Sound.closed_join (h : w.Sound) (hfits : w.Fits c) (hkind : c.kind = .signal) :
    (w.join c).signalGraph.Closed := by
  intro a b hab
  rw [signalGraph_join hkind] at hab ⊢
  simp only [Digraph.vertices_addEdge]
  rcases Digraph.edge_addEdge.1 hab with ⟨rfl, rfl⟩ | hab
  · obtain ⟨hout, hin⟩ := hfits
    rw [hkind] at hout hin
    exact ⟨(h.mem_vertices _).2 (hasSignal_of_outlet? hout),
      (h.mem_vertices _).2 (hasSignal_of_inlet? hin)⟩
  · exact h.closed a b hab

theorem Sound.acyclic_join_iff (h : w.Sound) (hkind : c.kind = .signal) :
    (w.join c).signalGraph.Acyclic ↔ ¬ ReflTransGen w.Drives c.target c.source := by
  rw [signalGraph_join hkind, h.acyclic.addEdge_iff, h.edge_eq]

end Wiring

namespace Patch

variable {p q : Patch} {source outlet target inlet : Nat} {w : Wiring}

theorem placement_eq_ok_iff {n : Nat} {a : Placement} :
    p.placement n = .ok a ↔ p.wiring.placements[n]? = some a := by
  unfold placement
  split <;> simp_all

theorem connectionKind_eq_ok_iff {a b : Placement} {kind : JackKind} :
    connectionKind a b outlet inlet = .ok kind ↔
      a.jacks.outlet? outlet = some kind ∧ b.jacks.inlet? inlet = some kind := by
  unfold connectionKind
  split
  · simp_all
  · simp_all
  · split <;> simp_all
    grind

/-- The jacks are there, of one kind, and signals through them would not come back. -/
def Connectable (p : Patch) (source outlet target inlet : Nat) (kind : JackKind) : Prop :=
  ∃ a b, p.wiring.placements[source]? = some a ∧ p.wiring.placements[target]? = some b ∧
    a.jacks.outlet? outlet = some kind ∧ b.jacks.inlet? inlet = some kind ∧
    (kind = .signal → ¬ ReflTransGen p.wiring.Drives target source)

theorem Connectable.fits {kind : JackKind} (h : p.Connectable source outlet target inlet kind) :
    p.wiring.Fits ⟨source, outlet, target, inlet, kind⟩ := by
  obtain ⟨a, b, ha, hb, hout, hin, -⟩ := h
  exact ⟨Option.bind_eq_some_iff.2 ⟨a, ha, hout⟩, Option.bind_eq_some_iff.2 ⟨b, hb, hin⟩⟩

theorem connected_eq_ok_iff (h : p.wiring.Sound) :
    p.connected source outlet target inlet = .ok w ↔ ∃ kind,
      p.Connectable source outlet target inlet kind ∧
        w = p.wiring.join ⟨source, outlet, target, inlet, kind⟩ := by
  constructor
  · intro hok
    simp only [connected, bind, Except.bind] at hok
    split at hok
    · cases hok
    · next a ha =>
      split at hok
      · cases hok
      · next b hb =>
        split at hok
        · cases hok
        · next kind hkind =>
          obtain ⟨hout, hin⟩ := connectionKind_eq_ok_iff.1 hkind
          have ha := placement_eq_ok_iff.1 ha
          have hb := placement_eq_ok_iff.1 hb
          split at hok
          · cases hok
          · next hloop =>
            refine ⟨kind, ⟨a, b, ha, hb, hout, hin, ?_⟩, (Except.ok.inj hok).symm⟩
            intro hsignal
            refine (h.acyclic_join_iff (c := ⟨source, outlet, target, inlet, kind⟩) hsignal).1 ?_
            refine (Digraph.isAcyclic_iff (h.closed_join ⟨Option.bind_eq_some_iff.2 ⟨a, ha, hout⟩,
              Option.bind_eq_some_iff.2 ⟨b, hb, hin⟩⟩ hsignal)).1 ?_
            simpa [hsignal] using hloop
  · rintro ⟨kind, hconnectable, rfl⟩
    have hfits := hconnectable.fits
    obtain ⟨a, b, ha, hb, hout, hin, hloop⟩ := hconnectable
    have hacyclic : kind = .signal →
        (p.wiring.join ⟨source, outlet, target, inlet, kind⟩).signalGraph.isAcyclic = true :=
      fun hsignal => (Digraph.isAcyclic_iff (h.closed_join hfits hsignal)).2
        ((h.acyclic_join_iff hsignal).2 (hloop hsignal))
    simp only [connected, placement_eq_ok_iff.2 ha, placement_eq_ok_iff.2 hb,
      connectionKind_eq_ok_iff.2 ⟨hout, hin⟩, bind, Except.bind]
    rw [if_neg]
    rintro ⟨hsignal, hnot⟩
    simp [hacyclic hsignal] at hnot

theorem connect_eq_ok_iff (h : p.wiring.Sound) :
    p.connect source outlet target inlet = .ok q ↔ ∃ kind,
      p.Connectable source outlet target inlet kind ∧
        q = { p with wiring := p.wiring.join ⟨source, outlet, target, inlet, kind⟩ } := by
  unfold connect
  cases hconnected : p.connected source outlet target inlet with
  | ok w =>
    obtain ⟨kind, hkind, rfl⟩ := (connected_eq_ok_iff h).1 hconnected
    constructor
    · intro hq
      exact ⟨kind, hkind, (Except.ok.inj hq).symm⟩
    · rintro ⟨kind', hkind', rfl⟩
      have hw := (connected_eq_ok_iff h).2 ⟨kind', hkind', rfl⟩
      rw [Except.ok.inj (hconnected.symm.trans hw)]
  | error cause =>
    constructor
    · intro hq
      simp at hq
    · rintro ⟨kind, hkind, -⟩
      have hw := (connected_eq_ok_iff h).2 ⟨kind, hkind, rfl⟩
      simp [hconnected] at hw

theorem sound_add {nodeType : String} {args : List Atom} {n : Nat} (h : p.wiring.Sound)
    (hadd : p.add nodeType args = .ok (q, n)) : q.wiring.Sound := by
  obtain ⟨made, -, rfl⟩ := add_eq_ok hadd
  exact h.place _

theorem sound_connect (h : p.wiring.Sound)
    (hconnect : p.connect source outlet target inlet = .ok q) : q.wiring.Sound := by
  obtain ⟨kind, hkind, rfl⟩ := (connect_eq_ok_iff h).1 hconnect
  obtain ⟨a, b, -, -, -, -, hloop⟩ := id hkind
  exact h.join hkind.fits fun hsignal => (h.acyclic_join_iff hsignal).2 (hloop hsignal)

theorem sound_after (h : p.wiring.Sound) (o : Operation) : (p.after o).wiring.Sound := by
  cases o with
  | add nodeType args =>
    simp only [Patch.after]
    split
    · next hadd => exact sound_add h hadd
    · exact h
  | connect source outlet target inlet =>
    simp only [Patch.after]
    split
    · next hconnect => exact sound_connect h hconnect
    · exact h
  | tick =>
    rcases after_tick p with hsame | ⟨order, hfold⟩
    · exact hsame.symm ▸ h
    · rw [(traffic_foldlM_compute hfold).2]
      exact h
  | send | setInput | setArray | record | drainLog => exact h

theorem Reachable.sound (h : p.Reachable) : p.wiring.Sound := by
  induction h with
  | new registry settings => exact Wiring.sound_empty
  | after _ o ih => exact sound_after ih o

theorem Reachable.exists_sort (h : p.Reachable) : ∃ order, p.wiring.signalGraph.sort = .ok order :=
  (Digraph.exists_sort_iff_acyclic h.sound.closed).2 h.sound.acyclic

/-- A connection is made if and only if both jacks are there and of one kind and, in the case of
signals, no signal connections lead back from the target to the source. It is added to the others,
and can be made again. So signals never go round, and no tick is given up for a loop. -/
theorem connect_succeeds_iff (hp : p.Reachable) (source outlet target inlet : Nat) :
    ((∃ q, p.connect source outlet target inlet = .ok q) ↔ ∃ a b kind,
      p.wiring.placements[source]? = some a ∧ p.wiring.placements[target]? = some b ∧
      a.jacks.outlet? outlet = some kind ∧ b.jacks.inlet? inlet = some kind ∧
      (kind = .signal → ¬ ReflTransGen p.wiring.Drives target source)) ∧
    (∀ q, p.connect source outlet target inlet = .ok q →
      (∃ kind, q = { p with wiring := p.wiring.join ⟨source, outlet, target, inlet, kind⟩ }) ∧
      ∃ r, q.connect source outlet target inlet = .ok r) ∧
    (∀ n, ¬ TransGen p.wiring.Drives n n) ∧
    ∃ order, p.wiring.signalGraph.sort = .ok order ∧ p.tick = order.foldlM compute p := by
  have hsound := hp.sound
  refine ⟨⟨?_, ?_⟩, ?_, ?_, ?_⟩
  · rintro ⟨q, hq⟩
    obtain ⟨kind, ⟨a, b, h⟩, -⟩ := (connect_eq_ok_iff hsound).1 hq
    exact ⟨a, b, kind, h⟩
  · rintro ⟨a, b, kind, h⟩
    exact ⟨_, (connect_eq_ok_iff hsound).2 ⟨kind, ⟨a, b, h⟩, rfl⟩⟩
  · intro q hq
    have hsound' := sound_connect hsound hq
    obtain ⟨kind, ⟨a, b, ha, hb, hout, hin, hloop⟩, rfl⟩ := (connect_eq_ok_iff hsound).1 hq
    refine ⟨⟨kind, rfl⟩, _, (connect_eq_ok_iff hsound').2
      ⟨kind, ⟨a, b, ha, hb, hout, hin, ?_⟩, rfl⟩⟩
    intro hsignal hback
    -- With the connection in place, a way back would close a circle.
    have hdrives : (p.wiring.join ⟨source, outlet, target, inlet, kind⟩).Drives source target :=
      (Wiring.drives_join _ _ _ _).2 (.inr ⟨hsignal, rfl, rfl⟩)
    have hacyclic := hsound'.acyclic
    unfold Digraph.Acyclic at hacyclic
    rw [hsound'.edge_eq] at hacyclic
    exact hacyclic source (.head' hdrives hback)
  · have hacyclic := hsound.acyclic
    unfold Digraph.Acyclic at hacyclic
    rwa [hsound.edge_eq] at hacyclic
  · obtain ⟨order, hsort⟩ := hp.exists_sort
    exact ⟨order, hsort, by simp only [Patch.tick, hsort]⟩

/-- Two signal functions without connections. -/
def pair : Patch :=
  [.add "abs~" [], .add "wrap~" []].foldl Patch.after (Patch.new .builtin {})

/-- One of them can be connected to the other, and again, but then not the other to it. -/
theorem connect_succeeds_iff_pair : pair.Reachable ∧ ∃ q, pair.connect 0 0 1 0 = .ok q ∧
    q.Reachable ∧ (∃ r, q.connect 0 0 1 0 = .ok r) ∧ (∀ r, q.connect 1 0 0 0 ≠ .ok r) ∧
    ∃ order, q.wiring.signalGraph.sort = .ok order := by
  have hpair : pair.Reachable := (Reachable.new _ _).foldl_after _
  have hno : ∀ a b, ¬ pair.wiring.Drives a b := fun a b ⟨c, hc, _⟩ => absurd hc List.not_mem_nil
  obtain ⟨hiff, hmade, -⟩ := connect_succeeds_iff hpair 0 0 1 0
  obtain ⟨q, hq⟩ := hiff.2 ⟨_, _, .signal, rfl, rfl, rfl, rfl, fun _ hback => by
    rcases ReflTransGen.cases_head hback with h | ⟨n, h, -⟩
    · simp at h
    · exact hno _ _ h⟩
  have hreach : q.Reachable := by
    have h := hpair.after (.connect 0 0 1 0)
    simpa only [Patch.after, hq] using h
  obtain ⟨hiff', -, -, order, hsort, -⟩ := connect_succeeds_iff hreach 1 0 0 0
  refine ⟨hpair, q, hq, hreach, (hmade q hq).2, ?_, order, hsort⟩
  intro r hr
  obtain ⟨kind, ⟨a, b, ha, -, hout, -⟩, rfl⟩ := (connect_eq_ok_iff hpair.sound).1 hq
  obtain ⟨a', b', kind', ha', -, hout', -, hloop⟩ := hiff'.1 ⟨r, hr⟩
  obtain rfl := Option.some.inj ha
  obtain rfl := Option.some.inj ha'
  have hkind : kind = .signal := (Option.some.inj hout).symm
  have hkind' : kind' = .signal := (Option.some.inj hout').symm
  exact hloop hkind' (.single ((Wiring.drives_join _ _ _ _).2 (.inr ⟨hkind, rfl, rfl⟩)))

end Patch

end Patchbay
