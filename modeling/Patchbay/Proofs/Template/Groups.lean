import Mathlib
import Patchbay.Proofs.Except
import Patchbay.Template.Basic

/-!
Groups. The commas of a declaration divide its atoms in just one way, and each of the groups becomes
a template with one segment for each atom that is scanned. All atoms are, but for those behind a
selector in the first group. The first of them that cannot be scanned decides how the declaration
fails.
-/
namespace Patchbay

section Divides

/-- The groups are what stands between the commas. -/
structure Divides (atoms : List Atom) (groups : List (List Atom)) : Prop where
  nonempty : groups ≠ []
  joined : [Atom.symbol ","].intercalate groups = atoms
  apart : ∀ group ∈ groups, Atom.symbol "," ∉ group

variable {α : Type}

theorem apart_splitOnP (p : α → Bool) (xs : List α) :
    ∀ group ∈ xs.splitOnP p, ∀ x ∈ group, ¬p x := by
  induction xs with
  | nil => simp
  | cons x xs ih =>
    by_cases hx : p x
    · rw [List.splitOnP_cons_eq_if_modifyHead, if_pos hx]
      exact List.forall_mem_cons.2 ⟨List.forall_mem_nil _, ih⟩
    · cases hsplit : xs.splitOnP p with
      | nil => exact absurd hsplit (List.splitOnP_ne_nil _ _)
      | cons first others =>
        rw [hsplit] at ih
        obtain ⟨hfirst, hothers⟩ := List.forall_mem_cons.1 ih
        rw [List.splitOnP_cons_eq_if_modifyHead, if_neg hx, hsplit, List.modifyHead_cons]
        exact List.forall_mem_cons.2 ⟨List.forall_mem_cons.2 ⟨hx, hfirst⟩, hothers⟩

theorem length_splitOnP (p : α → Bool) (xs : List α) :
    (xs.splitOnP p).length = xs.countP p + 1 := by
  induction xs with
  | nil => rfl
  | cons x xs ih =>
    rw [List.splitOnP_cons_eq_if_modifyHead]
    by_cases hx : p x <;> simp [hx, ih]

theorem Atom.isSymbol_iff {a : Atom} {s : String} : a.isSymbol s ↔ a = .symbol s := by
  cases a <;> simp [isSymbol, asSymbol?]

theorem divides_iff {atoms : List Atom} {groups : List (List Atom)} :
    Divides atoms groups ↔ groups = Templates.groups atoms := by
  classical
  have hgroups (atoms : List Atom) : Templates.groups atoms = atoms.splitOn (.symbol ",") := by
    have htest : (Atom.isSymbol · ",") = (· == Atom.symbol ",") := by
      funext a
      rw [Bool.eq_iff_iff, Atom.isSymbol_iff, beq_iff_eq]
    rw [Templates.groups, List.splitOn_eq_splitOnP, htest]
  constructor
  · rintro ⟨hnonempty, rfl, hapart⟩
    rw [hgroups, List.splitOn_intercalate _ hapart hnonempty]
  · rintro rfl
    refine ⟨List.splitOnP_ne_nil _ _, ?_, fun group hgroup hcomma => ?_⟩
    · rw [hgroups, List.intercalate_splitOn]
    · exact apart_splitOnP _ _ group hgroup _ hcomma (Atom.isSymbol_iff.2 rfl)

end Divides

/-- What an atom becomes. -/
inductive Segment.StandsFor : Atom → Segment → Prop
  | number (x : Float) : StandsFor (.float x) (.literal (.float x))
  | symbol {token : String} {s : Segment} (h : ofSymbol token = .ok s) :
    StandsFor (.symbol token) s

theorem Segment.ofAtom_eq_ok_iff {a : Atom} {s : Segment} : ofAtom a = .ok s ↔ StandsFor a s := by
  constructor
  · intro h
    cases a with
    | float x =>
      cases h
      exact .number x
    | symbol token => exact .symbol h
  · rintro (x | h)
    · rfl
    · exact h

namespace Template

/-- The atoms that a template with a selector is made of, one segment for each. -/
def scanned : List Atom → List Atom
  | first :: rest =>
    if first.isSymbol "symbol" then
      match rest with
      | .symbol s :: _ => [.symbol s]
      | _ => [.symbol ""]
    else first :: rest
  | [] => []

theorem ofSymbol_empty : Segment.ofSymbol "" = .ok (.literal (.symbol "")) := by
  have hmarks : marks "".toList = .ok [] := by
    rw [marks.eq_def]
    rfl
  rw [Segment.ofSymbol, hmarks]
  rfl

theorem ofAtoms_symbol (s : String) :
    ofAtoms [.symbol s] = (Segment.ofSymbol s).map fun segment => ⟨[segment]⟩ := by
  unfold ofAtoms
  rw [List.mapM_cons, List.mapM_nil, Segment.ofAtom]
  cases Segment.ofSymbol s <;> rfl

/-- A selector is the same as leaving all but the symbol behind it out. -/
theorem ofAtomsWithSelector_eq (atoms : List Atom) :
    ofAtomsWithSelector atoms = ofAtoms (scanned atoms) := by
  cases atoms with
  | nil => rfl
  | cons first rest =>
    by_cases hfirst : first.isSymbol "symbol"
    · simp only [ofAtomsWithSelector, scanned, if_pos hfirst]
      rcases rest with _ | ⟨x | s, rest⟩
      · rw [ofAtoms_symbol, ofSymbol_empty]
        rfl
      · rw [ofAtoms_symbol, ofSymbol_empty]
        rfl
      · rw [ofAtoms_symbol]
    · simp only [ofAtomsWithSelector, scanned, if_neg hfirst]

/-- Each atom becomes one segment. -/
theorem forall₂_ofAtoms {atoms : List Atom} {t : Template} (h : ofAtoms atoms = .ok t) :
    List.Forall₂ (fun a segment => Segment.ofAtom a = .ok segment) atoms t.segments := by
  obtain ⟨segments, hsegments, h⟩ := bind_eq_ok.1 h
  cases h
  exact forall₂_of_mapM_eq_ok hsegments

theorem forall₂_standsFor {atoms : List Atom} {t : Template} (h : ofAtoms atoms = .ok t) :
    List.Forall₂ Segment.StandsFor atoms t.segments :=
  (forall₂_ofAtoms h).imp fun _ _ => Segment.ofAtom_eq_ok_iff.1

/-- The segments of the template for the first group of a declaration. -/
inductive Opens : List Atom → List Segment → Prop
  | plain {group : List Atom} {segments : List Segment}
      (hgroup : ∀ rest, group ≠ .symbol "symbol" :: rest)
      (h : List.Forall₂ Segment.StandsFor group segments) : Opens group segments
  | selected {token : String} {rest : List Atom} {s : Segment}
      (h : Segment.ofSymbol token = .ok s) :
      Opens (.symbol "symbol" :: .symbol token :: rest) [s]
  | empty {rest : List Atom} (hrest : ∀ token others, rest ≠ .symbol token :: others) :
      Opens (.symbol "symbol" :: rest) [.literal (.symbol "")]

theorem opens_of_forall₂ {group : List Atom} {segments : List Segment}
    (h : List.Forall₂ Segment.StandsFor (scanned group) segments) : Opens group segments := by
  have hlone {token : String} (h : List.Forall₂ Segment.StandsFor [.symbol token] segments) :
      ∃ s, Segment.ofSymbol token = .ok s ∧ segments = [s] := by
    obtain ⟨s, rest, hs, hnone, rfl⟩ := List.forall₂_cons_left_iff.1 h
    cases hs with
    | symbol hs =>
      cases hnone
      exact ⟨s, hs, rfl⟩
  by_cases hgroup : ∃ rest, group = .symbol "symbol" :: rest
  · obtain ⟨rest, rfl⟩ := hgroup
    rcases rest with _ | ⟨x | token, rest⟩
    · obtain ⟨s, hs, rfl⟩ := hlone h
      cases hs.symm.trans ofSymbol_empty
      exact .empty fun token others => by simp
    · obtain ⟨s, hs, rfl⟩ := hlone h
      cases hs.symm.trans ofSymbol_empty
      exact .empty fun token others => by simp
    · obtain ⟨s, hs, rfl⟩ := hlone h
      exact .selected hs
  · have hgroup' (rest : List Atom) : group ≠ .symbol "symbol" :: rest :=
      fun he => hgroup ⟨rest, he⟩
    refine .plain hgroup' ?_
    cases group with
    | nil => exact h
    | cons first rest =>
      have hfirst : ¬first.isSymbol "symbol" := fun hs =>
        hgroup' rest (by rw [Atom.isSymbol_iff.1 hs])
      simpa only [scanned, if_neg hfirst] using h

end Template

section Tokens

/-- The symbols among the atoms. -/
def Template.tokens (atoms : List Atom) : List String := atoms.flatMap (·.asSymbol?.toList)

theorem Template.tokens_flatten (groups : List (List Atom)) :
    tokens groups.flatten = groups.flatMap tokens := by
  induction groups with
  | nil => rfl
  | cons group groups ih =>
    rw [List.flatten_cons, List.flatMap_cons, ← ih]
    exact List.flatMap_append

theorem Segment.failure?_ofAtom (a : Atom) : failure? (ofAtom a) =
    a.asSymbol?.toList.findSome? fun token => failure? (ofSymbol token) := by
  cases a with
  | float x => rfl
  | symbol token => exact (List.findSome?_singleton).symm

theorem Template.failure?_ofAtoms (atoms : List Atom) : failure? (ofAtoms atoms) =
    (tokens atoms).findSome? fun token => failure? (Segment.ofSymbol token) := by
  rw [tokens, ← failure?_mapM fun a _ => Segment.failure?_ofAtom a]
  exact failure?_map Template.mk _

namespace Templates

variable {atoms first : List Atom} {others : List (List Atom)} {ts : Templates}

/-- One template after the other is read from what is scanned of each group. -/
theorem map_toList_ofGroups (first : List Atom) (others : List (List Atom)) :
    (ofGroups (first :: others)).map toList =
      (Template.scanned first :: others).mapM Template.ofAtoms := by
  rw [ofGroups, List.mapM_cons, Template.ofAtomsWithSelector_eq]
  cases Template.ofAtoms (Template.scanned first) with
  | error e => rfl
  | ok t => cases others.mapM Template.ofAtoms <;> rfl

theorem failure?_ofAtoms (h : groups atoms = first :: others) : failure? (ofAtoms atoms) =
    (Template.tokens (Template.scanned first ++ others.flatten)).findSome?
      fun token => failure? (Segment.ofSymbol token) := by
  rw [ofAtoms, h, ← failure?_map toList, map_toList_ofGroups,
    failure?_mapM fun group _ => Template.failure?_ofAtoms group, ← Template.tokens_flatten,
    List.flatten_cons]

theorem mapM_eq_toList (h : groups atoms = first :: others) (hts : ofAtoms atoms = .ok ts) :
    (Template.scanned first :: others).mapM Template.ofAtoms = .ok ts.toList := by
  rw [← map_toList_ofGroups, ← h, ← ofAtoms, hts]
  rfl

theorem exists_groups (atoms : List Atom) : ∃ first others, groups atoms = first :: others :=
  List.exists_cons_of_ne_nil (List.splitOnP_ne_nil _ _)

theorem exists_group_of_mem {t : Template} (h : ofAtoms atoms = .ok ts) (ht : t ∈ ts.toList) :
    ∃ group, Template.ofAtoms group = .ok t := by
  obtain ⟨first, others, hgroups⟩ := exists_groups atoms
  obtain ⟨group, -, hgroup⟩ := (mem_iff_of_mapM_eq_ok (mapM_eq_toList hgroups h) t).1 ht
  exact ⟨group, hgroup⟩

theorem exists_split_of_error {e : Error} (h : groups atoms = first :: others)
    (he : ofAtoms atoms = .error e) : ∃ before token after,
      Template.tokens (Template.scanned first ++ others.flatten) = before ++ token :: after ∧
      (∀ read ∈ before, ∃ s, Segment.ofSymbol read = .ok s) ∧
      Segment.ofSymbol token = .error e := by
  have hfails := failure?_eq_some_iff.2 he
  rw [failure?_ofAtoms h] at hfails
  obtain ⟨before, token, after, htokens, htoken, hbefore⟩ := List.findSome?_eq_some_iff.1 hfails
  exact ⟨before, token, after, htokens, fun read hread =>
    failure?_eq_none_iff.1 (hbefore read hread), failure?_eq_some_iff.1 htoken⟩

/-- The commas divide the atoms of a declaration in one way, and it is read if every token that is
scanned is. Then it has one template more than there are commas, with one segment for each atom of a
group; only the first group may begin with a selector. Otherwise it fails as the first token does
that is not read. -/
theorem ofAtoms_by_groups (atoms : List Atom) : ∃ first others,
    (∀ groups, Divides atoms groups ↔ groups = first :: others) ∧
    ((∃ ts, ofAtoms atoms = .ok ts) ↔
      ∀ token ∈ Template.tokens (Template.scanned first ++ others.flatten),
        ∃ s, Segment.ofSymbol token = .ok s) ∧
    (∀ ts, ofAtoms atoms = .ok ts →
      ts.toList.length = atoms.countP (·.isSymbol ",") + 1 ∧
      Template.Opens first ts.first.segments ∧
      List.Forall₂ (fun group t => List.Forall₂ Segment.StandsFor group t.segments)
        others ts.others) ∧
    ∀ e, ofAtoms atoms = .error e → ∃ before token after,
      Template.tokens (Template.scanned first ++ others.flatten) = before ++ token :: after ∧
      (∀ read ∈ before, ∃ s, Segment.ofSymbol read = .ok s) ∧
      Segment.ofSymbol token = .error e := by
  obtain ⟨first, others, hgroups⟩ := exists_groups atoms
  refine ⟨first, others, fun groups => hgroups ▸ divides_iff, ?_, fun ts hts => ?_,
    fun e he => exists_split_of_error hgroups he⟩
  · rw [← failure?_eq_none_iff, failure?_ofAtoms hgroups]
    simp only [List.findSome?_eq_none_iff, failure?_eq_none_iff]
  · have hreads := forall₂_of_mapM_eq_ok (mapM_eq_toList hgroups hts)
    refine ⟨?_, ?_, ?_⟩
    · rw [← hreads.length_eq, ← length_splitOnP, ← groups, hgroups]
      rfl
    · cases hreads with
      | cons hfirst _ => exact Template.opens_of_forall₂ (Template.forall₂_standsFor hfirst)
    · cases hreads with
      | cons _ hothers => exact hothers.imp fun _ _ => Template.forall₂_standsFor

/-- A token without an index, in a place where it is not scanned. -/
def careless : List Atom := [.symbol "symbol", .symbol "a", .symbol "$", .symbol ",", .float 1]

theorem ofAtoms_by_groups_careless : (∃ e, Segment.ofSymbol "$" = .error e) ∧
    ∃ ts, ofAtoms careless = .ok ts ∧ ts.toList.length = 2 ∧
      Template.Opens [.symbol "symbol", .symbol "a", .symbol "$"] ts.first.segments := by
  obtain ⟨first, others, hdivides, -, hread, -⟩ := ofAtoms_by_groups careless
  have hgroups : Divides careless [[.symbol "symbol", .symbol "a", .symbol "$"], [.float 1]] :=
    ⟨by simp, rfl, by simp⟩
  obtain ⟨rfl, -⟩ := List.cons.inj ((hdivides _).1 hgroups)
  have hfails : (Segment.ofSymbol "$").toBool = false := by decide +kernel
  have hok : (ofAtoms careless).toBool := by decide +kernel
  cases htoken : Segment.ofSymbol "$" with
  | ok s =>
    rw [htoken] at hfails
    cases hfails
  | error e =>
    refine ⟨⟨e, rfl⟩, ?_⟩
    cases hts : ofAtoms careless with
    | error e =>
      rw [hts] at hok
      cases hok
    | ok ts =>
      obtain ⟨hlength, hopens, -⟩ := hread ts hts
      exact ⟨ts, rfl, hlength, hopens⟩

end Templates

end Tokens

end Patchbay
