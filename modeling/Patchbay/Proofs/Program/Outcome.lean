import Patchbay.Proofs.Program.Names
import Patchbay.Proofs.Template.Groups

/-!
The outcome of a compilation. A declaration is refused for its id or else for its type and
arguments, and the first one that is refused decides. What follows cannot fail: every node that is
made can be compiled, and the helper units never need each other in a circle.
-/
namespace Patchbay

/-- Every state variable that the code of a node uses is one that the node declares. -/
theorem NewNode.exists_compile (settings : Settings) (id : String) (made : NewNode) :
    ∃ node, made.compile settings id = .ok node := by
  obtain ⟨nodeType, jacks, node⟩ := made
  cases node with
  | message declared active => exact ⟨_, rfl⟩
  | tableWrite declared cursor => exact ⟨_, rfl⟩
  | tableRead declared cursor => exact ⟨_, rfl⟩
  | sampleRate => exact ⟨_, rfl⟩
  | func f => exact ⟨_, rfl⟩

/-- The errors that the arguments of a declaration can cause. -/
def Error.OfArguments : Error → Prop
  | .placeholder _ _ => True
  | .declaration _ _ => True
  | _ => False

theorem Segment.ofArguments_of_error {token : String} {cause : Error}
    (h : Segment.ofSymbol token = .error cause) : cause.OfArguments := by
  unfold ofSymbol at h
  split at h
  · cases h
  · cases h
    trivial

theorem Templates.ofArguments_of_error {atoms : List Atom} {cause : Error}
    (h : Templates.ofAtoms atoms = .error cause) : cause.OfArguments := by
  obtain ⟨first, others, hgroups⟩ := exists_groups atoms
  obtain ⟨-, token, -, -, -, htoken⟩ := exists_split_of_error hgroups h
  exact Segment.ofArguments_of_error htoken

theorem ofArguments_of_declaredArray {nodeType : String} {args : List Atom} {cause : Error}
    (h : declaredArray nodeType args = .error cause) : cause.OfArguments := by
  unfold declaredArray at h
  split at h
  · cases h
  · cases h
  · cases h; trivial
  · cases h; trivial

theorem NodeKind.ofArguments_of_error {kind : NodeKind} {args : List Atom} {cause : Error}
    (h : kind.make args = .error cause) : cause.OfArguments := by
  cases kind with
  | message =>
    rcases bind_eq_error.1 h with h | ⟨_, _, h⟩
    · exact Templates.ofArguments_of_error h
    · cases h
  | tableWrite =>
    rcases bind_eq_error.1 h with h | ⟨_, _, h⟩
    · exact ofArguments_of_declaredArray h
    · cases h
  | tableRead =>
    rcases bind_eq_error.1 h with h | ⟨_, _, h⟩
    · exact ofArguments_of_declaredArray h
    · cases h
  | sampleRate => cases h
  | func f => cases h

/-- A node is refused for its type, if there is no such type, or for its arguments. -/
theorem Registry.build_eq_error {r : Registry} {name : String} {args : List Atom} {cause : Error}
    (h : r.build name args = .error cause) :
    cause = .unknownNodeType name ∨ cause.OfArguments := by
  unfold build at h
  split at h
  · exact .inl (Except.error.inj h).symm
  · rcases bind_eq_error.1 h with h | ⟨_, _, h⟩
    · exact .inr (NodeKind.ofArguments_of_error h)
    · cases h

namespace Declaration

/-- Why a declaration is refused where the given texts are used as what is left of ids. -/
def refusal? (registry : Registry) (seen : List String) (d : Declaration) : Option Error :=
  if sanitized d.id ∈ seen then some (.duplicateId d.id)
  else match registry.build d.nodeType d.args with
    | .ok _ => none
    | .error cause => some cause

/-- The contribution of a declaration by itself, and the helper units that its node needs. -/
def Makes (registry : Registry) (settings : Settings) (d : Declaration)
    (n : Contribution × List Helper.Builtin) : Prop :=
  ∃ made, registry.build d.nodeType d.args = .ok made ∧
    made.compile settings d.id = .ok n.1 ∧ made.node.needs = n.2

variable {registry : Registry} {settings : Settings} {d : Declaration} {seen : List String}

theorem refusal?_eq_none_iff : d.refusal? registry seen = none ↔
    sanitized d.id ∉ seen ∧ ∃ made, registry.build d.nodeType d.args = .ok made := by
  unfold refusal?
  split
  · next h => simp [h]
  · next h => cases registry.build d.nodeType d.args <;> simp [h]

theorem refusal?_congr {seen' : List String} (h : ∀ s, s ∈ seen ↔ s ∈ seen') :
    d.refusal? registry seen = d.refusal? registry seen' := by
  simp only [refusal?, h]

theorem Makes.unique {n n' : Contribution × List Helper.Builtin}
    (h : d.Makes registry settings n) (h' : d.Makes registry settings n') : n = n' := by
  obtain ⟨made, hbuild, hcompile, hneeds⟩ := h
  obtain ⟨made', hbuild', hcompile', hneeds'⟩ := h'
  obtain rfl := Except.ok.inj (hbuild.symm.trans hbuild')
  exact Prod.ext (Except.ok.inj (hcompile.symm.trans hcompile')) (hneeds.symm.trans hneeds')

theorem makes_rightUnique : Relator.RightUnique (Makes registry settings) :=
  fun _ _ _ h h' => h.unique h'

theorem Makes.id_eq {n : Contribution × List Helper.Builtin}
    (h : d.Makes registry settings n) : n.1.id = d.id := by
  obtain ⟨made, hbuild, hcompile, -⟩ := h
  exact (NewNode.named_compile (Registry.jacks_build hbuild).symm hcompile).1

/-- A declaration is refused for its id, its type or its arguments. -/
theorem refusal?_cases {cause : Error} (h : d.refusal? registry seen = some cause) :
    cause = .duplicateId d.id ∨ cause = .unknownNodeType d.nodeType ∨ cause.OfArguments := by
  unfold refusal? at h
  split at h
  · exact .inl (Option.some.inj h).symm
  · split at h
    · cases h
    · next e hbuild =>
      obtain rfl := Option.some.inj h
      exact .inr (Registry.build_eq_error hbuild)

theorem refusal?_ne_dependencyCycle (unit : String) :
    d.refusal? registry seen ≠ some (.dependencyCycle unit) := by
  intro h
  rcases refusal?_cases h with hid | htype | harguments
  · cases hid
  · cases htype
  · exact harguments

end Declaration

namespace Program

variable {registry : Registry} {settings : Settings} {d : Declaration} {ds : List Declaration}
  {seen : List String} {cause : Error} {nodes : List (Contribution × List Helper.Builtin)}

theorem compileNodes_cons_of_refusal (h : d.refusal? registry seen = some cause) :
    compileNodes registry settings seen (d :: ds) = .error cause := by
  rw [compileNodes]
  unfold Declaration.refusal? at h
  split at h
  · next hseen => rw [if_pos hseen, Option.some.inj h]
  · next hseen =>
    rw [if_neg hseen]
    cases hbuild : registry.build d.nodeType d.args with
    | ok made => simp [hbuild] at h
    | error e =>
      rw [hbuild] at h
      rw [← Option.some.inj h]
      rfl

theorem compileNodes_cons_of_makes {n : Contribution × List Helper.Builtin}
    (hseen : sanitized d.id ∉ seen) (h : d.Makes registry settings n) :
    compileNodes registry settings seen (d :: ds) =
      (compileNodes registry settings (sanitized d.id :: seen) ds).map (n :: ·) := by
  obtain ⟨made, hbuild, hcompile, hneeds⟩ := h
  rw [compileNodes, if_neg hseen, hbuild]
  simp only [bind, Except.bind, hcompile, Error.ofFault, hneeds]
  cases compileNodes registry settings (sanitized d.id :: seen) ds <;> rfl

theorem exists_makes (settings : Settings) (h : d.refusal? registry seen = none) :
    sanitized d.id ∉ seen ∧ ∃ n, d.Makes registry settings n := by
  obtain ⟨hseen, made, hbuild⟩ := Declaration.refusal?_eq_none_iff.1 h
  obtain ⟨node, hcompile⟩ := made.exists_compile settings d.id
  exact ⟨hseen, (node, made.node.needs), made, hbuild, hcompile, rfl⟩

/-- What is left of the ids before a position, in addition to what was used already. -/
def seenAt (seen : List String) (ds : List Declaration) (i : Nat) : List String :=
  ((ds.take i).map (sanitized ·.id)).reverse ++ seen

theorem seenAt_zero : seenAt seen ds 0 = seen := rfl

theorem seenAt_succ (i : Nat) :
    seenAt seen (d :: ds) (i + 1) = seenAt (sanitized d.id :: seen) ds i := by
  simp [seenAt]

/-- The first declaration that is refused decides. -/
theorem compileNodes_eq_error_iff : compileNodes registry settings seen ds = .error cause ↔
    ∃ (i : Nat) (d : Declaration), ds[i]? = some d ∧
      d.refusal? registry (seenAt seen ds i) = some cause ∧
      ∀ j < i, ∀ d' : Declaration, ds[j]? = some d' →
        d'.refusal? registry (seenAt seen ds j) = none := by
  induction ds generalizing seen with
  | nil => simp [compileNodes]
  | cons d ds ih =>
    cases hfirst : d.refusal? registry seen with
    | some e =>
      rw [compileNodes_cons_of_refusal hfirst]
      constructor
      · intro h
        obtain rfl := Except.error.inj h
        exact ⟨0, d, rfl, hfirst, fun j hj => absurd hj (Nat.not_lt_zero j)⟩
      · rintro ⟨i, d', hd', hrefused, hbefore⟩
        cases i with
        | zero =>
          obtain rfl := Option.some.inj hd'
          exact congrArg _ (Option.some.inj (hfirst.symm.trans hrefused))
        | succ i =>
          have hnone := hbefore 0 (Nat.succ_pos i) d rfl
          rw [seenAt_zero, hfirst] at hnone
          cases hnone
    | none =>
      obtain ⟨hseen, n, hn⟩ := exists_makes settings hfirst
      have hmap : compileNodes registry settings seen (d :: ds) = .error cause ↔
          compileNodes registry settings (sanitized d.id :: seen) ds = .error cause := by
        rw [compileNodes_cons_of_makes hseen hn]
        cases compileNodes registry settings (sanitized d.id :: seen) ds <;> simp [Except.map]
      rw [hmap, ih]
      constructor
      · rintro ⟨i, d', hd', hrefused, hbefore⟩
        refine ⟨i + 1, d', hd', by rwa [seenAt_succ], ?_⟩
        rintro (_ | j) hj e he
        · obtain rfl := Option.some.inj he
          exact hfirst
        · rw [seenAt_succ]
          exact hbefore j (Nat.lt_of_succ_lt_succ hj) e he
      · rintro ⟨_ | i, d', hd', hrefused, hbefore⟩
        · obtain rfl := Option.some.inj hd'
          rw [seenAt_zero, hfirst] at hrefused
          cases hrefused
        · rw [seenAt_succ] at hrefused
          refine ⟨i, d', hd', hrefused, fun j hj e he => ?_⟩
          rw [← seenAt_succ]
          exact hbefore (j + 1) (Nat.succ_lt_succ hj) e he

/-- Declarations are compiled if and only if each can be made and their ids stay apart. -/
theorem compileNodes_eq_ok_iff : compileNodes registry settings seen ds = .ok nodes ↔
    List.Forall₂ (Declaration.Makes registry settings) ds nodes ∧
      (ds.map (sanitized ·.id)).Nodup ∧ ∀ d ∈ ds, sanitized d.id ∉ seen := by
  induction ds generalizing seen nodes with
  | nil =>
    constructor
    · intro h
      obtain rfl := Except.ok.inj h
      simp
    · rintro ⟨h, -⟩
      cases h
      rfl
  | cons d ds ih =>
    constructor
    · intro h
      cases hfirst : d.refusal? registry seen with
      | some e =>
        rw [compileNodes_cons_of_refusal hfirst] at h
        cases h
      | none =>
        obtain ⟨hseen, n, hn⟩ := exists_makes settings hfirst
        rw [compileNodes_cons_of_makes hseen hn] at h
        cases hrest : compileNodes registry settings (sanitized d.id :: seen) ds with
        | error e => rw [hrest] at h; cases h
        | ok rest =>
          rw [hrest] at h
          obtain rfl := Except.ok.inj h
          obtain ⟨hmakes, hnodup, hapart⟩ := ih.1 hrest
          simp only [List.mem_cons, not_or] at hapart
          refine ⟨.cons hn hmakes, List.nodup_cons.2 ⟨?_, hnodup⟩, ?_⟩
          · intro hmem
            obtain ⟨d', hd', heq⟩ := List.mem_map.1 hmem
            exact (hapart d' hd').1 heq
          · exact List.forall_mem_cons.2 ⟨hseen, fun d' hd' => (hapart d' hd').2⟩
    · rintro ⟨hmakes, hnodup, hapart⟩
      cases hmakes with
      | cons hn hmakes =>
        obtain ⟨hnew, hnodup⟩ := List.nodup_cons.1 hnodup
        obtain ⟨hseen, hapart⟩ := List.forall_mem_cons.1 hapart
        rw [compileNodes_cons_of_makes hseen hn]
        have hrest : ∀ d' ∈ ds, sanitized d'.id ∉ sanitized d.id :: seen := by
          intro d' hd'
          rw [List.mem_cons, not_or]
          exact ⟨fun heq => hnew (List.mem_map.2 ⟨d', hd', heq⟩), hapart d' hd'⟩
        rw [ih.2 ⟨hmakes, hnodup, hrest⟩]
        rfl

theorem compile_eq_error_iff : compile registry settings ds = .error cause ↔
    compileNodes registry settings [] ds = .error cause := by
  constructor
  · intro h
    rcases bind_eq_error.1 h with h | ⟨nodes, -, h⟩
    · exact h
    · obtain ⟨helpers, hhelpers⟩ := exists_resolve_library (nodes.flatMap (·.2))
      simp [hhelpers, bind, Except.bind, pure, Except.pure] at h
  · intro h
    exact bind_eq_error.2 (.inl h)

/-- Ids differ if what is left of them does. -/
theorem find?_of_mem (h : (nodes.map (sanitized ·.1.id)).Nodup)
    {n : Contribution × List Helper.Builtin} (hn : n ∈ nodes) :
    (nodes.map (·.1)).find? (·.id = n.1.id) = some n.1 := by
  induction nodes with
  | nil => cases hn
  | cons m nodes ih =>
    obtain ⟨hm, hnodup⟩ := List.nodup_cons.1 h
    rcases List.mem_cons.1 hn with rfl | hn
    · simp
    · have hne : m.1.id ≠ n.1.id := fun heq =>
        hm (List.mem_map.2 ⟨n, hn, congrArg sanitized heq.symm⟩)
      rw [List.map_cons, List.find?_cons_of_neg (by simpa using hne)]
      exact ih hnodup hn

theorem ids_of_makes (h : List.Forall₂ (Declaration.Makes registry settings) ds nodes) :
    nodes.map (sanitized ·.1.id) = ds.map (sanitized ·.id) := by
  induction h with
  | nil => rfl
  | cons hn _ ih => simp only [List.map_cons, ih, hn.id_eq]

theorem built_of_makes (h : List.Forall₂ (Declaration.Makes registry settings) ds nodes) :
    ∀ d ∈ ds, ∃ made, registry.build d.nodeType d.args = .ok made := by
  induction h with
  | nil => exact fun d hd => absurd hd List.not_mem_nil
  | cons hn _ ih =>
    obtain ⟨made, hbuild, -⟩ := hn
    exact List.forall_mem_cons.2 ⟨⟨made, hbuild⟩, ih⟩

/-- What is wrong with a declaration that is refused: an earlier id or its node. -/
theorem refused_cases {i : Nat}
    (h : d.refusal? registry ((ds.take i).map (sanitized ·.id)) = some cause) :
    (∃ d' ∈ ds.take i, sanitized d'.id = sanitized d.id) ∨
      ∃ cause, registry.build d.nodeType d.args = .error cause := by
  unfold Declaration.refusal? at h
  split at h
  · next hseen =>
    obtain ⟨d', hd', heq⟩ := List.mem_map.1 hseen
    exact .inl ⟨d', hd', heq⟩
  · split at h
    · cases h
    · next cause hbuild => exact .inr ⟨cause, hbuild⟩

/-- Where all declarations are made and ids stay apart, nothing is wrong with any of them. -/
theorem not_refused_of_ok (h : compileNodes registry settings [] ds = .ok nodes) {i : Nat}
    (hd : ds[i]? = some d) :
    (∀ d' ∈ ds.take i, sanitized d'.id ≠ sanitized d.id) ∧
      ∀ cause, registry.build d.nodeType d.args ≠ .error cause := by
  obtain ⟨hmakes, hnodup, -⟩ := compileNodes_eq_ok_iff.1 h
  constructor
  · intro d' hd' heq
    rw [← List.take_append_drop i ds, List.map_append] at hnodup
    have hmem : d ∈ ds.drop i := List.mem_of_getElem? (i := 0) (by simpa using hd)
    exact (List.nodup_append.1 hnodup).2.2 _ (List.mem_map_of_mem hd') _ (List.mem_map_of_mem hmem)
      heq
  · intro cause hbuild
    obtain ⟨made, hmade⟩ := built_of_makes hmakes d (List.mem_of_getElem? hd)
    rw [hmade] at hbuild
    cases hbuild

/-- The error is that of the first declaration that is refused. -/
theorem compile_eq_error_iff_refusal : compile registry settings ds = .error cause ↔
    ∃ (i : Nat) (d : Declaration), ds[i]? = some d ∧
      d.refusal? registry ((ds.take i).map (sanitized ·.id)) = some cause ∧
      ∀ j < i, ∀ d' : Declaration, ds[j]? = some d' →
        d'.refusal? registry ((ds.take j).map (sanitized ·.id)) = none := by
  have hseen (i : Nat) (d : Declaration) : d.refusal? registry (seenAt [] ds i) =
      d.refusal? registry ((ds.take i).map (sanitized ·.id)) :=
    Declaration.refusal?_congr (by simp [seenAt])
  rw [compile_eq_error_iff, compileNodes_eq_error_iff]
  simp only [hseen]

theorem exists_compile_eq_error_iff : (∃ cause, compile registry settings ds = .error cause) ↔
    ∃ (i : Nat) (d : Declaration), ds[i]? = some d ∧
      ((∃ d' ∈ ds.take i, sanitized d'.id = sanitized d.id) ∨
        ∃ cause, registry.build d.nodeType d.args = .error cause) := by
  constructor
  · rintro ⟨cause, h⟩
    obtain ⟨i, d, hd, hrefused, -⟩ := compile_eq_error_iff_refusal.1 h
    exact ⟨i, d, hd, refused_cases hrefused⟩
  · rintro ⟨i, d, hd, hwrong⟩
    cases hnodes : compileNodes registry settings [] ds with
    | error cause => exact ⟨cause, compile_eq_error_iff.2 hnodes⟩
    | ok nodes =>
      obtain ⟨hapart, hbuilt⟩ := not_refused_of_ok hnodes hd
      rcases hwrong with ⟨d', hd', heq⟩ | ⟨cause, hbuild⟩
      · exact absurd heq (hapart d' hd')
      · exact absurd hbuild (hbuilt cause)

theorem compile_ne_dependencyCycle (unit : String) :
    compile registry settings ds ≠ .error (.dependencyCycle unit) := by
  intro h
  obtain ⟨i, d, -, hrefused, -⟩ := compile_eq_error_iff_refusal.1 h
  exact Declaration.refusal?_ne_dependencyCycle unit hrefused

/-- The nodes of a program are those of its declarations, and found by their ids. -/
theorem nodes_of_compile {p : Program} (hp : compile registry settings ds = .ok p) :
    List.Forall₂ (fun d node => p.node? d.id = some node ∧ node.id = d.id ∧
      ∃ made, registry.build d.nodeType d.args = .ok made ∧
        made.compile settings d.id = .ok node) ds p.nodes := by
  obtain ⟨-, nodes, hnodes, hpnodes⟩ := compile_eq_ok hp
  obtain ⟨hmakes, hnodup, -⟩ := compileNodes_eq_ok_iff.1 hnodes
  have hids : (nodes.map (sanitized ·.1.id)).Nodup := by rwa [ids_of_makes hmakes]
  rw [hpnodes, List.forall₂_map_right_iff]
  refine List.forall₂_iff_get.2 ⟨hmakes.length_eq, fun i h h' => ?_⟩
  have hn := hmakes.get h h'
  refine ⟨?_, hn.id_eq, ?_⟩
  · rw [node?, hpnodes, ← hn.id_eq]
    exact find?_of_mem hids (List.get_mem _ _)
  · obtain ⟨made, hbuild, hcompile, -⟩ := hn
    exact ⟨made, hbuild, hcompile⟩

/-- A compilation fails with the error of the first declaration that is refused, if there is one:
one that repeats what is left of an earlier id, or else one that is no node. It never fails for the
helper units. Otherwise there is one node for each declaration, in their order, and it is found by
the id of that declaration. -/
theorem compile_outcome (registry : Registry) (settings : Settings) (ds : List Declaration) :
    (∀ cause, compile registry settings ds = .error cause ↔
      ∃ (i : Nat) (d : Declaration), ds[i]? = some d ∧
        d.refusal? registry ((ds.take i).map (sanitized ·.id)) = some cause ∧
        ∀ j < i, ∀ d' : Declaration, ds[j]? = some d' →
          d'.refusal? registry ((ds.take j).map (sanitized ·.id)) = none) ∧
    ((∃ cause, compile registry settings ds = .error cause) ↔
      ∃ (i : Nat) (d : Declaration), ds[i]? = some d ∧
        ((∃ d' ∈ ds.take i, sanitized d'.id = sanitized d.id) ∨
          ∃ cause, registry.build d.nodeType d.args = .error cause)) ∧
    (∀ unit, compile registry settings ds ≠ .error (.dependencyCycle unit)) ∧
    ∀ p, compile registry settings ds = .ok p →
      List.Forall₂ (fun d node => p.node? d.id = some node ∧ node.id = d.id ∧
        ∃ made, registry.build d.nodeType d.args = .ok made ∧
          made.compile settings d.id = .ok node) ds p.nodes := by
  refine ⟨fun _ => compile_eq_error_iff_refusal, exists_compile_eq_error_iff, ?_, ?_⟩
  · exact compile_ne_dependencyCycle
  · exact fun p hp => nodes_of_compile hp

/-- The second declaration is refused for its id, though its type is unknown as is that of the
third. -/
example : compile .builtin {} [⟨"osc-1", "abs~", []⟩, ⟨"osc_1", "osc~", []⟩, ⟨"b", "osc~", []⟩] =
    .error (.duplicateId "osc_1") := rfl

end Program

end Patchbay
