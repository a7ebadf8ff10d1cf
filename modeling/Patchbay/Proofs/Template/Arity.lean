import Patchbay.Proofs.Template.Groups
import Patchbay.Proofs.Template.Substitution

/-!
Arity. A template that was read from atoms has its indices counted from one. So it can be evaluated
where the message has as many atoms as the largest of them says, and takes nothing from the atoms
behind. Elsewhere it fails at the first reference past the end of the message, whatever the other
templates do.
-/
namespace Patchbay

variable {m m' : Message} {index n : ℕ}

section Indices

def Piece.indices : Piece → List ℕ
  | text _ => []
  | placeholder index => [index]

/-- The indices of the references in a segment, from left to right. -/
def Segment.indices : Segment → List ℕ
  | literal _ => []
  | text pieces => pieces.flatMap Piece.indices

def Template.indices (t : Template) : List ℕ := t.segments.flatMap Segment.indices

theorem Piece.mem_indices_iff {p : Piece} : index ∈ p.indices ↔ p = .placeholder index := by
  cases p <;> simp [indices, eq_comm]

theorem Segment.mem_indices_text_iff {pieces : List Piece} :
    index ∈ (text pieces).indices ↔ .placeholder index ∈ pieces := by
  simp [indices, Piece.mem_indices_iff]

theorem Segment.mem_indices_ofMarks_iff {ms : List Mark} :
    index ∈ (ofMarks ms).indices ↔ .placeholder index ∈ ms := by
  unfold ofMarks
  split
  · rw [mem_indices_text_iff, Piece.placeholder_mem_ofMarks_iff]
  · next hnone =>
    have hindex : .placeholder index ∉ ms := fun hindex =>
      hnone (any_isPlaceholder_iff.2 ⟨index, hindex⟩)
    simp [indices, hindex]

theorem Segment.maxPlaceholder_le_iff {s : Segment} :
    s.maxPlaceholder ≤ n ↔ ∀ index ∈ s.indices, index ≤ n := by
  cases s with
  | literal a => simp [maxPlaceholder, indices]
  | text pieces =>
    rw [maxPlaceholder, indices]
    induction pieces with
    | nil => simp
    | cons p pieces ih => cases p <;> simp [Piece.indices, ih]

theorem Template.arity_le_iff {t : Template} : t.arity ≤ n ↔ ∀ index ∈ t.indices, index ≤ n := by
  rw [arity, indices]
  induction t.segments with
  | nil => simp
  | cons s segments ih =>
    rw [List.foldr_cons, Nat.max_le, Segment.maxPlaceholder_le_iff, ih, List.flatMap_cons,
      List.forall_mem_append]

end Indices

section Read

/-- The ways in which templates come about. -/
inductive Template.Read : Template → Prop
  | ofAtoms {atoms : List Atom} {t : Template} (h : ofAtoms atoms = .ok t) : Read t
  | ofAtomsWithSelector {atoms : List Atom} {t : Template}
      (h : ofAtomsWithSelector atoms = .ok t) : Read t
  | ofDeclaration {arguments : List Atom} {ts : Templates} {t : Template}
      (h : Templates.ofAtoms arguments = .ok ts) (ht : t ∈ ts.toList) : Read t
  | ofMessage {m : Message} {ts : Templates} {t : Template}
      (h : SetOutcome.ofMessage m = .applied ts) (ht : t ∈ ts.toList) : Read t

theorem Segment.pos_of_ofSymbol {token : String} {s : Segment} (h : ofSymbol token = .ok s) :
    ∀ index ∈ s.indices, 1 ≤ index := by
  obtain ⟨ms, hms, rfl⟩ := ofSymbol_eq_ok_iff.1 h
  intro index hindex
  obtain ⟨ds, hds, rfl⟩ := (placeholder_mem_iff hms).1 (mem_indices_ofMarks_iff.1 hindex)
  exact (isIndex_of_reference_mem hms hds).2.1

theorem Segment.pos_of_ofAtom {a : Atom} {s : Segment} (h : ofAtom a = .ok s) :
    ∀ index ∈ s.indices, 1 ≤ index := by
  cases a with
  | float x =>
    cases h
    simp [indices]
  | symbol token => exact pos_of_ofSymbol h

namespace Template

variable {t : Template} {atoms : List Atom}

theorem pos_of_ofAtoms (h : ofAtoms atoms = .ok t) : ∀ index ∈ t.indices, 1 ≤ index := by
  obtain ⟨segments, hsegments, ht⟩ := bind_eq_ok.1 h
  cases ht
  intro index hindex
  obtain ⟨s, hs, hindex⟩ := List.mem_flatMap.1 hindex
  obtain ⟨a, -, ha⟩ := (mem_iff_of_mapM_eq_ok hsegments s).1 hs
  exact Segment.pos_of_ofAtom ha index hindex

theorem pos_of_ofAtomsWithSelector (h : ofAtomsWithSelector atoms = .ok t) :
    ∀ index ∈ t.indices, 1 ≤ index := by
  rw [ofAtomsWithSelector_eq] at h
  exact pos_of_ofAtoms h

theorem pos_of_ofMessage {ts : Templates} (h : SetOutcome.ofMessage m = .applied ts)
    (ht : t ∈ ts.toList) : ∀ index ∈ t.indices, 1 ≤ index := by
  unfold SetOutcome.ofMessage at h
  split at h
  · split at h
    · split at h
      · next hpayload =>
        cases h
        obtain rfl := List.mem_singleton.1 ht
        exact pos_of_ofAtomsWithSelector hpayload
      · cases h
    · cases h
  · cases h

theorem Read.pos (h : t.Read) : ∀ index ∈ t.indices, 1 ≤ index := by
  cases h with
  | ofAtoms h => exact pos_of_ofAtoms h
  | ofAtomsWithSelector h => exact pos_of_ofAtomsWithSelector h
  | ofDeclaration h ht =>
    obtain ⟨group, hgroup⟩ := Templates.exists_group_of_mem h ht
    exact pos_of_ofAtoms hgroup
  | ofMessage h ht => exact pos_of_ofMessage h ht

end Template

end Read

section Beyond

/-- The failure at a reference, if it points past the end of the message. -/
def Message.beyond? (m : Message) (index : ℕ) : Option OutOfRange :=
  if m.length < index then some ⟨index, m.length⟩ else none

theorem Message.failure?_atomAt (h : 1 ≤ index) : failure? (m.atomAt index) = m.beyond? index := by
  rw [beyond?]
  split
  · next hbeyond =>
    have hget : m[index - 1]? = none := List.getElem?_eq_none (by omega)
    rw [atomAt, if_neg (Nat.ne_of_gt h), hget]
    rfl
  · next hwithin =>
    obtain ⟨a, -, hat⟩ := exists_atomAt h (Nat.le_of_not_lt hwithin)
    rw [hat]
    rfl

theorem Piece.failure?_evaluate {p : Piece} (h : ∀ index ∈ p.indices, 1 ≤ index) :
    failure? (p.evaluate m) = p.indices.findSome? m.beyond? := by
  cases p with
  | text s => rfl
  | placeholder index =>
    rw [evaluate, failure?_map, Message.failure?_atomAt (h index (List.mem_singleton_self _)),
      indices, List.findSome?_singleton]

theorem Segment.failure?_evaluate {s : Segment} (h : ∀ index ∈ s.indices, 1 ≤ index) :
    failure? (s.evaluate m) = s.indices.findSome? m.beyond? := by
  unfold evaluate
  split
  · rfl
  · next index =>
    have hpos : 1 ≤ index := h index (mem_indices_text_iff.2 (List.mem_singleton_self _))
    simp [Message.failure?_atomAt hpos, indices, Piece.indices]
  · next pieces _ =>
    have hpieces : ∀ p ∈ pieces,
        failure? (p.evaluate m) = p.indices.findSome? m.beyond? := fun p hp =>
      Piece.failure?_evaluate fun index hindex => h index (List.mem_flatMap.2 ⟨p, hp, hindex⟩)
    rw [indices, ← failure?_mapM hpieces]
    exact failure?_map (fun texts => Atom.symbol (String.join texts)) _

theorem Template.failure?_evaluate {t : Template} (h : ∀ index ∈ t.indices, 1 ≤ index) :
    failure? (t.evaluate m) = t.indices.findSome? m.beyond? :=
  failure?_mapM fun s hs =>
    Segment.failure?_evaluate fun index hindex => h index (List.mem_flatMap.2 ⟨s, hs, hindex⟩)

theorem Message.findSome?_beyond?_eq_none_iff {indices : List ℕ} :
    indices.findSome? m.beyond? = none ↔ ∀ index ∈ indices, index ≤ m.length := by
  simp [List.findSome?_eq_none_iff, beyond?]

theorem Message.findSome?_beyond?_eq_some_iff {indices : List ℕ} {e : OutOfRange} :
    indices.findSome? m.beyond? = some e ↔ ∃ before index after,
      indices = before ++ index :: after ∧ (∀ i ∈ before, i ≤ m.length) ∧ m.length < index ∧
        e = ⟨index, m.length⟩ := by
  rw [List.findSome?_eq_some_iff]
  simp [beyond?]
  grind

end Beyond

section Agree

theorem Message.atomAt_eq_of_take_eq (h : m.take n = m'.take n) (hlow : 1 ≤ index)
    (hhigh : index ≤ n) (hlong : n ≤ m.length) : m.atomAt index = m'.atomAt index := by
  have hlt : index - 1 < n := by omega
  have hget : m[index - 1]? = m'[index - 1]? := by
    rw [← List.getElem?_take_of_lt hlt, h, List.getElem?_take_of_lt hlt]
  obtain ⟨a, ha, hat⟩ := exists_atomAt hlow (hhigh.trans hlong)
  rw [hat, atomAt, if_neg (Nat.ne_of_gt hlow), ← hget, ha]

theorem Piece.evaluate_congr {p : Piece}
    (h : ∀ index ∈ p.indices, m.atomAt index = m'.atomAt index) : p.evaluate m = p.evaluate m' := by
  cases p with
  | text s => rfl
  | placeholder index => rw [evaluate, evaluate, h index (List.mem_singleton_self _)]

theorem Segment.evaluate_congr {s : Segment}
    (h : ∀ index ∈ s.indices, m.atomAt index = m'.atomAt index) : s.evaluate m = s.evaluate m' := by
  unfold evaluate
  split
  · rfl
  · next index => exact h index (mem_indices_text_iff.2 (List.mem_singleton_self _))
  · next pieces _ =>
    have hpieces : ∀ p ∈ pieces, p.evaluate m = p.evaluate m' := fun p hp =>
      Piece.evaluate_congr fun index hindex => h index (List.mem_flatMap.2 ⟨p, hp, hindex⟩)
    rw [mapM_congr hpieces]

theorem Template.evaluate_congr {t : Template}
    (h : ∀ index ∈ t.indices, m.atomAt index = m'.atomAt index) : t.evaluate m = t.evaluate m' :=
  mapM_congr fun s hs =>
    Segment.evaluate_congr fun index hindex => h index (List.mem_flatMap.2 ⟨s, hs, hindex⟩)

end Agree

namespace Template

variable {t : Template}

theorem exists_evaluate_iff (h : t.Read) :
    (∃ out, t.evaluate m = .ok out) ↔ t.arity ≤ m.length := by
  rw [← failure?_eq_none_iff, failure?_evaluate h.pos, Message.findSome?_beyond?_eq_none_iff,
    arity_le_iff]

theorem evaluate_of_take_eq (h : t.Read) (hlong : t.arity ≤ m.length)
    (htake : m.take t.arity = m'.take t.arity) : t.evaluate m = t.evaluate m' :=
  evaluate_congr fun index hindex => Message.atomAt_eq_of_take_eq htake (h.pos index hindex)
    (arity_le_iff.1 (Nat.le_refl _) index hindex) hlong

theorem exists_evaluate_eq_error (h : t.Read) (hshort : m.length < t.arity) :
    ∃ before index after, t.indices = before ++ index :: after ∧
      (∀ i ∈ before, i ≤ m.length) ∧ m.length < index ∧
      t.evaluate m = .error ⟨index, m.length⟩ := by
  cases heval : t.evaluate m with
  | ok out => exact absurd ((exists_evaluate_iff h).1 ⟨out, heval⟩) (Nat.not_le.2 hshort)
  | error e =>
    have hfails := failure?_eq_some_iff.2 heval
    rw [failure?_evaluate h.pos] at hfails
    obtain ⟨before, index, after, hindices, hbefore, hindex, rfl⟩ :=
      Message.findSome?_beyond?_eq_some_iff.1 hfails
    exact ⟨before, index, after, hindices, hbefore, hindex, rfl⟩

/-- What fails in a list of templates is left out of the results. -/
theorem forall₂_evaluate {ts : List Template} (h : ∀ t ∈ ts, t.Read) (m : Message) :
    List.Forall₂ (fun t out => t.evaluate m = .ok out) (ts.filter (·.arity ≤ m.length))
      ((ts.map (·.evaluate m)).filterMap Except.toOption) := by
  induction ts with
  | nil => exact .nil
  | cons t ts ih =>
    obtain ⟨ht, hts⟩ := List.forall_mem_cons.1 h
    by_cases hlong : t.arity ≤ m.length
    · obtain ⟨out, hout⟩ := (exists_evaluate_iff ht).2 hlong
      rw [List.filter_cons_of_pos (by simpa using hlong), List.map_cons, hout]
      exact .cons hout (ih hts)
    · obtain ⟨-, index, -, -, -, -, hfails⟩ :=
        exists_evaluate_eq_error ht (Nat.lt_of_not_le hlong)
      rw [List.filter_cons_of_neg (by simpa using hlong), List.map_cons, hfails]
      exact ih hts

end Template

/-- A template that was read is evaluated exactly where the message is as long as its arity, each
segment to an atom, and the atoms of the message behind make no difference. On a shorter message it
fails at the first reference, from left to right, that points past its end. A set of templates gives
the results of those that the message is long enough for, in order. -/
theorem Templates.evaluate_by_arity :
    (∀ t : Template, t.Read → ∀ m : Message,
      ((∃ out, t.evaluate m = .ok out) ↔ t.arity ≤ m.length) ∧
      (∀ out, t.evaluate m = .ok out →
        List.Forall₂ (fun s a => s.evaluate m = .ok a) t.segments out ∧
        ∀ m' : Message, m.take t.arity = m'.take t.arity → t.evaluate m' = .ok out) ∧
      (m.length < t.arity → ∃ before index after, t.indices = before ++ index :: after ∧
        (∀ i ∈ before, i ≤ m.length) ∧ m.length < index ∧
        t.evaluate m = .error ⟨index, m.length⟩)) ∧
    ∀ ts : Templates, (∀ t ∈ ts.toList, t.Read) → ∀ m : Message,
      List.Forall₂ (fun t out => t.evaluate m = .ok out)
        (ts.toList.filter (·.arity ≤ m.length)) (ts.evaluate m) := by
  refine ⟨fun t ht m => ⟨Template.exists_evaluate_iff ht, fun out hout => ?_,
    Template.exists_evaluate_eq_error ht⟩, fun ts hts m => Template.forall₂_evaluate hts m⟩
  have hlong : t.arity ≤ m.length := (Template.exists_evaluate_iff ht).1 ⟨out, hout⟩
  refine ⟨forall₂_of_mapM_eq_ok hout, fun m' htake => ?_⟩
  rw [← Template.evaluate_of_take_eq ht hlong htake, hout]

/-- Of two templates the first asks for more than a single atom, first so with its second
reference. -/
def demanding : List Atom := [.symbol "$1-$3$4", .symbol "$2", .symbol ",", .symbol "$1"]

theorem Templates.evaluate_by_arity_demanding : ∃ first second,
    ofAtoms demanding = .ok ⟨first, [second]⟩ ∧ first.Read ∧ second.Read ∧
    1 < first.arity ∧ first.evaluate [.symbol "only"] = .error ⟨3, 1⟩ ∧
    ∃ out, second.evaluate [.symbol "only", .float 0] = .ok out ∧
      (⟨first, [second]⟩ : Templates).evaluate [.symbol "only"] = [out] := by
  have hindices : (ofAtoms demanding).toOption.map (·.toList.map Template.indices) =
      some [[1, 3, 4, 2], [1]] := by decide +kernel
  obtain ⟨first, second, hts, hfirst, hsecond⟩ : ∃ first second,
      ofAtoms demanding = .ok ⟨first, [second]⟩ ∧ first.indices = [1, 3, 4, 2] ∧
        second.indices = [1] := by
    cases hts : ofAtoms demanding with
    | error e =>
      rw [hts] at hindices
      cases hindices
    | ok ts =>
      obtain ⟨first, others⟩ := ts
      rw [hts] at hindices
      obtain ⟨hfirst, hothers⟩ := List.cons.inj (Option.some.inj hindices)
      obtain ⟨second, rfl, hsecond⟩ := List.map_eq_singleton_iff.1 hothers
      exact ⟨first, second, rfl, hfirst, hsecond⟩
  obtain ⟨heach, hset⟩ := evaluate_by_arity
  have hread : ∀ t ∈ (⟨first, [second]⟩ : Templates).toList, t.Read :=
    fun t ht => .ofDeclaration hts ht
  have hread₁ : first.Read := hread first (by simp [toList])
  have hread₂ : second.Read := hread second (by simp [toList])
  have hshort : 1 < first.arity := by
    refine Nat.lt_of_not_le fun hle => ?_
    simpa [hfirst] using Template.arity_le_iff.1 hle
  have hlong : second.arity ≤ 1 := Template.arity_le_iff.2 (by simp [hsecond])
  refine ⟨first, second, hts, hread₁, hread₂, hshort, ?_, ?_⟩
  · obtain ⟨-, -, hfails⟩ := heach first hread₁ [.symbol "only"]
    obtain ⟨before, index, after, hsplit, hbefore, hindex, heval⟩ := hfails hshort
    have hfound : first.indices.findSome? (Message.beyond? [.symbol "only"]) = some ⟨index, 1⟩ :=
      Message.findSome?_beyond?_eq_some_iff.2
        ⟨before, index, after, hsplit, hbefore, hindex, rfl⟩
    rw [hfirst] at hfound
    cases hfound
    exact heval
  · have hfilter : (⟨first, [second]⟩ : Templates).toList.filter (·.arity ≤ 1) = [second] := by
      simp [toList, hlong, hshort]
    have hresults : List.Forall₂ (fun t out => t.evaluate [.symbol "only"] = .ok out)
        ((⟨first, [second]⟩ : Templates).toList.filter (·.arity ≤ 1)) _ :=
      hset ⟨first, [second]⟩ hread [.symbol "only"]
    rw [hfilter] at hresults
    obtain ⟨out, rest, hout, hnone, hresult⟩ := List.forall₂_cons_left_iff.1 hresults
    cases hnone
    refine ⟨out, ?_, hresult⟩
    obtain ⟨-, hsame, -⟩ := heach second hread₂ [.symbol "only"]
    apply (hsame out hout).2
    rcases Nat.le_one_iff_eq_zero_or_eq_one.1 hlong with h | h <;> simp [h]

end Patchbay
