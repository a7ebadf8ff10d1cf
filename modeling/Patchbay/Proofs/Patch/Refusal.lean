import Patchbay.Patch.Request
import Patchbay.Proofs.Except
import Patchbay.Proofs.Patch.Sample

/-!
Refusals leave no trace. The edge that is drawn for a connection closes a loop only if it was not
there before, so taking it out again leaves the edges of all connections that were made.
-/
namespace Patchbay.Patch

variable {p q : Patch} {source outlet target inlet : Nat}

theorem connected_eq (p : Patch) (source outlet target inlet : Nat) :
    p.connected source outlet target inlet =
      match p.ends source outlet target inlet with
      | .error cause => .error cause
      | .ok (a, b, kind) =>
        let wiring := p.wiring.join ⟨source, outlet, target, inlet, kind⟩
        if kind = .signal ∧ !wiring.signalGraph.isAcyclic then
          .error (.signalLoop a.nodeType b.nodeType)
        else .ok wiring := by
  simp only [connected, ends, bind, Except.bind, pure, Except.pure]
  cases p.placement source with
  | error cause => rfl
  | ok a =>
    cases p.placement target with
    | error cause => rfl
    | ok b =>
      dsimp only
      cases connectionKind a b outlet inlet with
      | error cause => rfl
      | ok kind => rfl

theorem fits_of_ends {a b : Placement} {kind : JackKind}
    (h : p.ends source outlet target inlet = .ok (a, b, kind)) :
    p.wiring.Fits ⟨source, outlet, target, inlet, kind⟩ := by
  obtain ⟨a', ha, h⟩ := bind_eq_ok.1 h
  obtain ⟨b', hb, h⟩ := bind_eq_ok.1 h
  obtain ⟨kind', hkind, h⟩ := bind_eq_ok.1 h
  obtain ⟨rfl, rfl, rfl⟩ : a' = a ∧ b' = b ∧ kind' = kind := by simpa [pure, Except.pure] using h
  obtain ⟨hout, hin⟩ := connectionKind_eq_ok_iff.1 hkind
  constructor
  · exact Option.bind_eq_some_iff.2 ⟨a', placement_eq_ok_iff.1 ha, hout⟩
  · exact Option.bind_eq_some_iff.2 ⟨b', placement_eq_ok_iff.1 hb, hin⟩

/-- Both ends of a signal connection are in the signal graph already. -/
theorem insertEdge_eq (h : p.wiring.Sound)
    (hfits : p.wiring.Fits ⟨source, outlet, target, inlet, .signal⟩) :
    p.wiring.signalGraph.insertEdge source target = p.wiring.signalGraph.addEdge source target := by
  apply Digraph.insertEdge_of_mem
  · exact (h.mem_vertices source).2 (Wiring.hasSignal_of_outlet? hfits.1)
  · exact (h.mem_vertices target).2 (Wiring.hasSignal_of_inlet? hfits.2)

/-- An edge that closes a loop is a new one. -/
theorem notMem_of_closes (h : p.wiring.Sound)
    (hloop : (p.wiring.signalGraph.addEdge source target).isAcyclic = false) :
    (source, target) ∉ p.wiring.signalGraph.edges := by
  intro hmem
  have hsame : p.wiring.signalGraph.addEdge source target = p.wiring.signalGraph := if_pos hmem
  have hacyclic : p.wiring.signalGraph.isAcyclic = true :=
    (Digraph.isAcyclic_iff h.closed).2 h.acyclic
  rw [hsame, hacyclic] at hloop
  exact Bool.noConfusion hloop

/-- What is done in place comes to the wiring that is wanted, or to the one from before. -/
theorem connectInPlace_eq (h : p.wiring.Sound) (source outlet target inlet : Nat) :
    p.connectInPlace source outlet target inlet =
      match p.connected source outlet target inlet with
      | .ok wiring => (.ok (), { p with wiring })
      | .error cause => (.error cause, p) := by
  rw [connected_eq]
  unfold connectInPlace
  cases hends : p.ends source outlet target inlet with
  | error cause => rfl
  | ok found =>
    obtain ⟨a, b, kind⟩ := found
    dsimp only
    cases kind with
    | message => rfl
    | signal =>
      rw [insertEdge_eq h (fits_of_ends hends)]
      cases hloop : (p.wiring.signalGraph.addEdge source target).isAcyclic with
      | true => simp [Wiring.join, setSignalGraph, appendConnection, hloop]
      | false =>
        have hback := Digraph.removeEdge_addEdge (notMem_of_closes h hloop)
        simp [Wiring.join, setSignalGraph, hloop, hback]

theorem respond_connect (h : p.wiring.Sound) (source outlet target inlet : Nat) :
    p.respond (.change (.connect source outlet target inlet)) =
      match p.connect source outlet target inlet with
      | .ok q => (.done, q)
      | .error cause => (.refused cause, p) := by
  simp only [respond, connectInPlace_eq h, connect]
  cases p.connected source outlet target inlet <;> rfl

/-- What a request leaves is what it is meant to make of the patch. -/
theorem respond_change (h : p.wiring.Sound) (o : Operation) :
    (p.respond (.change o)).2 = p.after o := by
  cases o with
  | add nodeType args =>
    simp only [respond, after]
    cases p.add nodeType args <;> rfl
  | connect source outlet target inlet =>
    rw [respond_connect h, after]
    cases p.connect source outlet target inlet <;> rfl
  | tick =>
    simp only [respond, after]
    cases p.tick <;> rfl
  | send | setInput | setArray | record | drainLog => rfl

theorem Reachable.respond (h : p.Reachable) (r : Request) : (p.respond r).2.Reachable := by
  cases r with
  | change o =>
    rw [respond_change h.sound]
    exact h.after o
  | ask question => exact h

theorem Reachable.following (h : p.Reachable) (requests : List Request) :
    (p.following requests).Reachable := by
  induction requests generalizing p with
  | nil => exact h
  | cons r rest ih => exact ih (h.respond r)

theorem Reachable.following_changes (h : p.Reachable) (os : List Operation) :
    p.following (os.map .change) = os.foldl Patch.after p := by
  induction os generalizing p with
  | nil => rfl
  | cons o os ih =>
    rw [List.map_cons, following_cons, respond_change h.sound, ih (h.after o), List.foldl_cons]

/-- A refused request leaves the patch as it was. -/
theorem respond_refused {r : Request} {cause : Error} (h : p.wiring.Sound)
    (hr : p.respond r = (.refused cause, q)) : q = p := by
  cases r with
  | ask question => cases question <;> cases hr
  | change o =>
    cases o with
    | add nodeType args =>
      simp only [respond] at hr
      split at hr
      · cases hr
      · exact (Prod.mk.inj hr).2.symm
    | connect source outlet target inlet =>
      rw [respond_connect h] at hr
      split at hr
      · cases hr
      · exact (Prod.mk.inj hr).2.symm
    | tick =>
      simp only [respond] at hr
      split at hr
      · cases hr
      · exact (Prod.mk.inj hr).2.symm
    | send | setInput | setArray | record | drainLog => cases hr

/-- A request that is refused is answered by the cause, and with that it is over: the patch is the
one from before it, with the edges of all signal connections that were made, and whatever is asked
for later is answered as if there had been no such request. -/
theorem refusal_leaves_no_trace {registry : Registry} {settings : Settings}
    {before : List Request} {r : Request} {cause : Error}
    (hp : (Patch.new registry settings).following before = p)
    (hr : p.respond r = (.refused cause, q)) :
    q = p ∧
    (∀ c ∈ q.wiring.connections, c.kind = .signal →
      (c.source, c.target) ∈ q.wiring.signalGraph.edges) ∧
    ∀ later,
      (Patch.new registry settings).replies (before ++ r :: later) =
        (Patch.new registry settings).replies before ++ .refused cause :: p.replies later ∧
      (Patch.new registry settings).replies (before ++ later) =
        (Patch.new registry settings).replies before ++ p.replies later ∧
      (Patch.new registry settings).following (before ++ r :: later) =
        (Patch.new registry settings).following (before ++ later) := by
  have hreachable : p.Reachable := hp ▸ (Reachable.new registry settings).following before
  obtain rfl := respond_refused hreachable.sound hr
  refine ⟨rfl, ?_, ?_⟩
  · intro c hc hkind
    exact (hreachable.sound.edge c.source c.target).2 ⟨c, hc, hkind, rfl, rfl⟩
  · intro later
    refine ⟨?_, ?_, ?_⟩
    · rw [replies_append, hp, replies, hr]
    · rw [replies_append, hp]
    · simp only [following, List.foldl_append, List.foldl_cons] at hp ⊢
      rw [hp, hr]

/-- Signals come to the second function of `doubled` over two connections, so none may go back. -/
theorem respond_back_doubled : doubled.respond (.change (.connect 1 0 0 0)) =
    (.refused (.connection (.signalLoop "wrap~" "abs~")), doubled) := by
  have hsound : doubled.wiring.Sound :=
    (foldl_doubling ▸ (Reachable.new .builtin {}).foldl_after doubling : doubled.Reachable).sound
  have hback : Relation.ReflTransGen doubled.wiring.Drives 0 1 :=
    .single ⟨⟨0, 0, 1, 0, .signal⟩, List.mem_cons_self, rfl, rfl, rfl⟩
  have hloop : (doubled.wiring.join ⟨1, 0, 0, 0, .signal⟩).signalGraph.isAcyclic = false := by
    rw [← Bool.not_eq_true, Digraph.isAcyclic_iff (hsound.closed_join ⟨rfl, rfl⟩ rfl),
      hsound.acyclic_join_iff rfl]
    exact fun h => h hback
  have hends : doubled.ends 1 0 0 0 =
      .ok (⟨"wrap~", ⟨[.signal], [.signal]⟩⟩, ⟨"abs~", ⟨[.signal], [.signal]⟩⟩, .signal) := rfl
  rw [respond_connect hsound, connect, connected_eq, hends]
  simp only [hloop, Bool.not_false, and_self, ↓reduceIte]

/-- The refused connection leaves the edge that both connections of `doubled` rely on. -/
theorem refusal_leaves_no_trace_doubled :
    (Patch.new .builtin {}).following (doubling.map .change) = doubled ∧
    (0, 1) ∈ doubled.wiring.signalGraph.edges ∧
    ∀ later, (Patch.new .builtin {}).replies
        (doubling.map .change ++ .change (.connect 1 0 0 0) :: later) =
      (Patch.new .builtin {}).replies (doubling.map .change) ++
        .refused (.connection (.signalLoop "wrap~" "abs~")) :: doubled.replies later := by
  have hdoubled : (Patch.new .builtin {}).following (doubling.map .change) = doubled :=
    ((Reachable.new .builtin {}).following_changes doubling).trans foldl_doubling
  obtain ⟨-, hedges, hlater⟩ := refusal_leaves_no_trace hdoubled respond_back_doubled
  refine ⟨hdoubled, ?_, fun later => (hlater later).1⟩
  exact hedges ⟨0, 0, 1, 0, .signal⟩ List.mem_cons_self rfl

end Patchbay.Patch
