import Patchbay.Proofs.Program.Rendering

/-!
Compilation of lists of declarations one after the other. Nodes do not depend on the declarations
around them, and the helper units of the second list come behind those of the first, as far as they
are not among them.
-/
namespace Patchbay

namespace Program

variable {registry : Registry} {settings : Settings} {d : Declaration} {ds es : List Declaration}
  {p q both : Program} {n : Contribution × List Helper.Builtin}
  {nodes more : List (Contribution × List Helper.Builtin)}

/-- A program puts together what each declaration makes, and the helper units for all of it. -/
theorem compile_eq_ok_iff : compile registry settings ds = .ok p ↔
    ∃ nodes, List.Forall₂ (Declaration.Makes registry settings) ds nodes ∧
      (ds.map (sanitized ·.id)).Nodup ∧
      ∃ helpers, Helper.library.resolve (nodes.flatMap (·.2)) = .ok helpers ∧
        p = ⟨helpers, nodes.map (·.1), settings⟩ := by
  constructor
  · intro h
    obtain ⟨nodes, hnodes, h⟩ := bind_eq_ok.1 h
    obtain ⟨helpers, hhelpers, h⟩ := bind_eq_ok.1 h
    obtain ⟨hmakes, hnodup, -⟩ := compileNodes_eq_ok_iff.1 hnodes
    exact ⟨nodes, hmakes, hnodup, helpers, hhelpers, (Except.ok.inj h).symm⟩
  · rintro ⟨nodes, hmakes, hnodup, helpers, hhelpers, rfl⟩
    have hnodes := compileNodes_eq_ok_iff.2
      ⟨hmakes, hnodup, fun d _ => (List.not_mem_nil : sanitized d.id ∉ [])⟩
    exact bind_eq_ok.2 ⟨nodes, hnodes, bind_eq_ok.2 ⟨helpers, hhelpers, rfl⟩⟩

theorem exists_compile_iff : (∃ p, compile registry settings ds = .ok p) ↔
    (∃ nodes, List.Forall₂ (Declaration.Makes registry settings) ds nodes) ∧
      (ds.map (sanitized ·.id)).Nodup := by
  constructor
  · rintro ⟨p, hp⟩
    obtain ⟨nodes, hmakes, hnodup, -⟩ := compile_eq_ok_iff.1 hp
    exact ⟨⟨nodes, hmakes⟩, hnodup⟩
  · rintro ⟨⟨nodes, hmakes⟩, hnodup⟩
    obtain ⟨helpers, hhelpers⟩ := exists_resolve_library (nodes.flatMap (·.2))
    exact ⟨_, compile_eq_ok_iff.2 ⟨nodes, hmakes, hnodup, helpers, hhelpers, rfl⟩⟩

/-- Whether a list is compiled can be found out without its helper units. -/
theorem exists_compile_of_toBool (h : (compileNodes registry settings [] ds).toBool) :
    ∃ p, compile registry settings ds = .ok p := by
  cases hnodes : compileNodes registry settings [] ds with
  | error cause => rw [hnodes] at h; cases h
  | ok nodes =>
    obtain ⟨hmakes, hnodup, -⟩ := compileNodes_eq_ok_iff.1 hnodes
    exact exists_compile_iff.2 ⟨⟨nodes, hmakes⟩, hnodup⟩

theorem exists_forall₂_append_iff {α β : Type} {r : α → β → Prop} {as more : List α} :
    (∃ bs, List.Forall₂ r (as ++ more) bs) ↔
      (∃ bs, List.Forall₂ r as bs) ∧ ∃ bs, List.Forall₂ r more bs := by
  constructor
  · rintro ⟨bs, h⟩
    exact ⟨⟨bs.take as.length, by simpa using List.forall₂_take as.length h⟩,
      ⟨bs.drop as.length, by simpa using List.forall₂_drop as.length h⟩⟩
  · rintro ⟨⟨bs, h⟩, ⟨bs', h'⟩⟩
    exact ⟨bs ++ bs', List.rel_append h h'⟩

/-- A declaration by itself is compiled to what it makes in any list. -/
theorem compile_singleton (h : d.Makes registry settings n) :
    ∃ alone, compile registry settings [d] = .ok alone ∧ alone.nodes = [n.1] := by
  obtain ⟨helpers, hhelpers⟩ := exists_resolve_library ([n].flatMap (·.2))
  exact ⟨⟨helpers, [n.1], settings⟩, compile_eq_ok_iff.2
    ⟨[n], .cons h .nil, List.nodup_singleton _, helpers, hhelpers, rfl⟩, rfl⟩

/-- The loop bodies of the program are these lines, and its text ends with them. -/
def Loops (p : Program) (ls : List String) : Prop :=
  p.nodes.filterMap (·.loopBody?) = ls.map Code.raw ∧
    ∃ front, p.render = .ok (front ++ loopText ls)

theorem exists_loops (hproper : Text.isIdentifier settings.variablePrefix.toList)
    (hp : compile registry settings ds = .ok p) : ∃ ls, p.Loops ls := by
  obtain ⟨ls, front, hls, hrender⟩ := exists_render hproper hp
  exact ⟨ls, hls, front, hrender⟩

/-- A list of declarations can be split anywhere, if the parts share no id. -/
theorem exists_compile_append_iff :
    (∃ both, compile registry settings (ds ++ es) = .ok both) ↔
      (∃ p, compile registry settings ds = .ok p) ∧ (∃ q, compile registry settings es = .ok q) ∧
        ∀ d ∈ ds, ∀ e ∈ es, sanitized d.id ≠ sanitized e.id := by
  simp only [exists_compile_iff, exists_forall₂_append_iff, List.map_append, List.nodup_append,
    List.forall_mem_map]
  tauto

/-- The helper units of a program, by recursion along their needs. -/
theorem helpers_eq {units : List Helper.Builtin}
    (hmakes : List.Forall₂ (Declaration.Makes registry settings) ds nodes)
    (hunits : Emits Helper.library.needs [] (nodes.flatMap (·.2)) units)
    (hp : compile registry settings ds = .ok p) : p.helpers = units := by
  obtain ⟨nodes', hnodes, -, helpers, hhelpers, rfl⟩ := compile_eq_ok_iff.1 hp
  obtain rfl := Declaration.makes_rightUnique.forall₂ hmakes hnodes
  exact (Helper.emits_of_resolve hhelpers).functional hunits

/-- What two lists are compiled to, put together. -/
theorem append_eq (hp : compile registry settings ds = .ok p)
    (hq : compile registry settings es = .ok q)
    (hboth : compile registry settings (ds ++ es) = .ok both) :
    both.nodes = p.nodes ++ q.nodes ∧
      both.helpers = p.helpers ++ q.helpers.filter (· ∉ p.helpers) := by
  obtain ⟨nodes, hnodes, -, helpers, hhelpers, rfl⟩ := compile_eq_ok_iff.1 hp
  obtain ⟨more, hmore, -, units, hunits, rfl⟩ := compile_eq_ok_iff.1 hq
  obtain ⟨all, hall, -, resolved, hresolved, rfl⟩ := compile_eq_ok_iff.1 hboth
  obtain rfl : all = nodes ++ more :=
    Declaration.makes_rightUnique.forall₂ hall (List.rel_append hnodes hmore)
  rw [List.flatMap_append] at hresolved
  constructor
  · exact List.map_append
  · exact (Catalogue.distinct_of_injective Helper.library_name_injective _).resolve_append hhelpers
      hunits hresolved

/-- Declarations one list after the other can be compiled if and only if each list can and no id of
the first is left in names as one of the second. Then the nodes are those of the first list followed
by those of the second, each as its declaration by itself is compiled; the helper units are those of
the first followed by those of the second that the first lacks; and with a proper prefix the loop
runs the lines of the first and then those of the second. -/
theorem compile_append (registry : Registry) (settings : Settings) (ds es : List Declaration) :
    ((∃ both, compile registry settings (ds ++ es) = .ok both) ↔
      (∃ p, compile registry settings ds = .ok p) ∧ (∃ q, compile registry settings es = .ok q) ∧
        ∀ d ∈ ds, ∀ e ∈ es, sanitized d.id ≠ sanitized e.id) ∧
    ∀ p q both, compile registry settings ds = .ok p → compile registry settings es = .ok q →
      compile registry settings (ds ++ es) = .ok both →
        both.nodes = p.nodes ++ q.nodes ∧
        List.Forall₂ (fun d node => ∃ alone, compile registry settings [d] = .ok alone ∧
          alone.nodes = [node]) (ds ++ es) both.nodes ∧
        both.helpers = p.helpers ++ q.helpers.filter (· ∉ p.helpers) ∧
        (Text.isIdentifier settings.variablePrefix.toList → ∃ ls ms : List String,
          p.Loops ls ∧ q.Loops ms ∧ both.Loops (ls ++ ms)) := by
  refine ⟨exists_compile_append_iff, fun p q both hp hq hboth => ?_⟩
  obtain ⟨hnodes, hhelpers⟩ := append_eq hp hq hboth
  refine ⟨hnodes, ?_, hhelpers, fun hproper => ?_⟩
  · obtain ⟨nodes, hmakes, -, helpers, -, rfl⟩ := compile_eq_ok_iff.1 hboth
    rw [List.forall₂_map_right_iff]
    exact hmakes.imp fun _ _ h => compile_singleton h
  · obtain ⟨ls, hls, hrender⟩ := exists_loops hproper hp
    obtain ⟨ms, hms, hrender'⟩ := exists_loops hproper hq
    obtain ⟨ns, hns, front, hfront⟩ := exists_loops hproper hboth
    have hraw : Function.Injective Code.raw := fun _ _ h => Code.raw.inj h
    obtain rfl : ls ++ ms = ns := by
      apply hraw.list_map
      rw [List.map_append, ← hls, ← hms, ← hns, hnodes, List.filterMap_append]
    exact ⟨ls, ms, ⟨hls, hrender⟩, ⟨hms, hrender'⟩, hns, front, hfront⟩

/-- This list and the next one both need the units for notes and for tokens. -/
def melody : List Declaration := [⟨"box", "msg", []⟩, ⟨"pitch", "mtof~", []⟩]

def gauge : List Declaration := [⟨"pitch 2", "mtof~", []⟩, ⟨"rate", "samplerate~", []⟩]

theorem compile_append_gauge : ∃ p q both, compile .builtin {} melody = .ok p ∧
    compile .builtin {} gauge = .ok q ∧ compile .builtin {} (melody ++ gauge) = .ok both ∧
    p.helpers = [.tokens, .templates, .noteToFrequency] ∧
    q.helpers = [.noteToFrequency, .bang, .tokens] ∧
    both.helpers = [.tokens, .templates, .noteToFrequency, .bang] := by
  have hmelody : ∃ nodes, List.Forall₂ (Declaration.Makes .builtin {}) melody nodes ∧
      nodes.flatMap (·.2) = [.templates, .noteToFrequency] :=
    ⟨[(_, _), (_, _)], .cons ⟨_, rfl, rfl, rfl⟩ (.cons ⟨_, rfl, rfl, rfl⟩ .nil), by rfl⟩
  have hgauge : ∃ nodes, List.Forall₂ (Declaration.Makes .builtin {}) gauge nodes ∧
      nodes.flatMap (·.2) = [.noteToFrequency, .bang, .tokens] :=
    ⟨[(_, _), (_, _)], .cons ⟨_, rfl, rfl, rfl⟩ (.cons ⟨_, rfl, rfl, rfl⟩ .nil), by rfl⟩
  obtain ⟨nodes, hnodes, hneeds⟩ := hmelody
  obtain ⟨more, hmore, hneeds'⟩ := hgauge
  obtain ⟨p, hp⟩ := exists_compile_iff.2 ⟨⟨nodes, hnodes⟩, by decide⟩
  obtain ⟨q, hq⟩ := exists_compile_iff.2 ⟨⟨more, hmore⟩, by decide⟩
  obtain ⟨hsplit, hparts⟩ := compile_append .builtin {} melody gauge
  obtain ⟨both, hboth⟩ := hsplit.2 ⟨⟨p, hp⟩, ⟨q, hq⟩, by decide⟩
  obtain ⟨-, -, hhelpers, -⟩ := hparts p q both hp hq hboth
  have hpunits : p.helpers = [.tokens, .templates, .noteToFrequency] := by
    refine helpers_eq hnodes ?_ hp
    rw [hneeds]
    exact .new (by decide) (.new (by decide) (.done _) (.done _))
      (.new (by decide) (.done _) (.done _))
  have hqunits : q.helpers = [.noteToFrequency, .bang, .tokens] := by
    refine helpers_eq hmore ?_ hq
    rw [hneeds']
    exact .new (by decide) (.done _) (.new (by decide) (.done _) (.new (by decide) (.done _)
      (.done _)))
  refine ⟨p, q, both, hp, hq, hboth, hpunits, hqunits, ?_⟩
  rw [hhelpers, hpunits, hqunits]
  rfl

end Program

end Patchbay
