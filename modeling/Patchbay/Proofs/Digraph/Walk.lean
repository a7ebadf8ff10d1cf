import Mathlib.Data.List.Nodup
import Mathlib.Logic.Relation
import Patchbay.Digraph.Basic

/-!
Walks as recursion. A walk with a stack does what recursion along the edges does: to visit a vertex
is to enter it, to visit those of its successors that were not entered before, and to leave it.
-/
namespace Patchbay.Digraph

open Relation

variable {α : Type}

def Edge (g : Digraph α) (v w : α) : Prop := (v, w) ∈ g.edges

/-- Edges begin and end at vertices. -/
def Closed (g : Digraph α) : Prop := ∀ v w, g.Edge v w → v ∈ g.vertices ∧ w ∈ g.vertices

namespace Marks

/-- The vertex was entered and not left yet. -/
def Open (m : Marks α) (v : α) : Prop := v ∈ m.discovered ∧ v ∉ m.finished

/-- Only what was entered was left. -/
def Sound (m : Marks α) : Prop := m.finished ⊆ m.discovered

variable {m : Marks α} {v w : α}

theorem Sound.discover (hm : m.Sound) (v : α) : (m.discover v).Sound :=
  fun _ hw => List.mem_append_left _ (hm hw)

variable [DecidableEq α]

theorem finish_of_mem (h : v ∈ m.finished) : m.finish v = m := if_pos h

theorem finished_finish_of_notMem (h : v ∉ m.finished) :
    (m.finish v).finished = m.finished ++ [v] := by
  simp [finish, h]

@[simp] theorem mem_finished_finish : w ∈ (m.finish v).finished ↔ w = v ∨ w ∈ m.finished := by
  unfold finish
  split
  · next h => exact ⟨.inr, fun hw => hw.elim (fun e => e ▸ h) id⟩
  · simp [or_comm]

theorem Sound.finish (hm : m.Sound) (hv : v ∈ m.discovered) : (m.finish v).Sound := by
  intro w hw
  rw [discovered_finish]
  rcases mem_finished_finish.1 hw with rfl | hw
  · exact hv
  · exact hm hw

theorem open_discover (hnew : v ∉ m.discovered) (hm : m.Sound) :
    (m.discover v).Open w ↔ w = v ∨ m.Open w := by
  have hv : v ∉ m.finished := fun h => hnew (hm h)
  unfold Open
  by_cases e : w = v <;> simp_all

theorem open_finish : (m.finish v).Open w ↔ w ≠ v ∧ m.Open w := by
  unfold Open
  simp only [discovered_finish, mem_finished_finish, not_or]
  tauto

end Marks

variable [DecidableEq α]

/-- The successors that a walk puts on its stack when it enters a vertex. -/
def ahead (g : Digraph α) (m : Marks α) (v : α) : List α :=
  (g.successors v).filter (· ∉ (m.discover v).discovered)

variable {g : Digraph α} {m m' : Marks α} {s : List α} {v w : α}

theorem mem_ahead : w ∈ g.ahead m v ↔ g.Edge v w ∧ w ∉ m.discovered ∧ w ≠ v := by
  simp [ahead, Edge]

@[simp] theorem explore_nil : g.explore m [] = m := by
  rw [explore]

theorem explore_enter (hv : v ∈ g.vertices) (hnew : v ∉ m.discovered) :
    g.explore m (v :: s) = g.explore (m.discover v) (g.ahead m v ++ v :: s) := by
  rw [explore, dif_pos ⟨hv, hnew⟩, ahead]

theorem explore_leave (h : v ∈ m.discovered) :
    g.explore m (v :: s) = g.explore (m.finish v) s := by
  rw [explore, dif_neg (fun hn => hn.2 h)]

theorem explore_append (m : Marks α) (s t : List α) :
    g.explore m (s ++ t) = g.explore (g.explore m s) t := by
  fun_induction g.explore m s with
  | case1 => rfl
  | case2 m v s h entered ih =>
    rw [List.cons_append, explore_enter h.1 h.2, ← ih, List.append_assoc, List.cons_append]
    rfl
  | case3 m v s h ih => rw [List.cons_append, explore, dif_neg h, ih]

/-- One walk over all roots does what walks from one root after the other do, if they share their
marks. -/
theorem explore_eq_foldl (m : Marks α) (roots : List α) :
    g.explore m roots = roots.foldl (fun m root => g.explore m [root]) m := by
  induction roots generalizing m with
  | nil => exact explore_nil
  | cons root roots ih => rw [List.foldl_cons, ← ih, ← explore_append, List.singleton_append]

/-- A walk from what was left before does nothing. -/
theorem explore_of_finished (hm : m.Sound) (hs : s ⊆ m.finished) : g.explore m s = m := by
  induction s with
  | nil => exact explore_nil
  | cons v s ih =>
    obtain ⟨hv, hs⟩ := List.cons_subset.1 hs
    rw [explore_leave (hm hv), Marks.finish_of_mem hv, ih hs]

/-- Visits to the vertices of a list in turn, by recursion along the edges. -/
inductive Visit (g : Digraph α) : Marks α → List α → Marks α → Prop
  | done (m : Marks α) : Visit g m [] m
  | pass {m m' : Marks α} {v : α} {s : List α} (hv : v ∈ m.finished) (hrest : Visit g m s m') :
      Visit g m (v :: s) m'
  | enter {m below m' : Marks α} {v : α} {s : List α} (hv : v ∈ g.vertices)
      (hnew : v ∉ m.discovered) (hahead : Visit g (m.discover v) (g.ahead m v) below)
      (hrest : Visit g (below.finish v) s m') : Visit g m (v :: s) m'

namespace Visit

theorem discovered_subset (h : g.Visit m s m') : m.discovered ⊆ m'.discovered := by
  induction h with
  | done => exact List.Subset.refl _
  | pass _ _ ih => exact ih
  | enter _ _ _ _ ihahead ihrest =>
    intro w hw
    have hbelow := ihahead (List.mem_append_left _ hw)
    exact ihrest (by rwa [Marks.discovered_finish])

theorem finished_subset (h : g.Visit m s m') : m.finished ⊆ m'.finished := by
  induction h with
  | done => exact List.Subset.refl _
  | pass _ _ ih => exact ih
  | enter _ _ _ _ ihahead ihrest =>
    intro w hw
    exact ihrest (Marks.mem_finished_finish.2 (.inr (ihahead hw)))

theorem mem_finished (h : g.Visit m s m') : s ⊆ m'.finished := by
  induction h with
  | done => exact List.nil_subset _
  | pass hv hrest ih => exact List.cons_subset.2 ⟨hrest.finished_subset hv, ih⟩
  | enter _ _ _ hrest _ ihrest =>
    exact List.cons_subset.2
      ⟨hrest.finished_subset (Marks.mem_finished_finish.2 (.inl rfl)), ihrest⟩

theorem sound (h : g.Visit m s m') (hm : m.Sound) : m'.Sound := by
  induction h with
  | done => exact hm
  | pass _ _ ih => exact ih hm
  | enter _ _ hahead _ ihahead ihrest =>
    exact ihrest ((ihahead (hm.discover _)).finish (hahead.discovered_subset (by simp)))

theorem discovered_subset_vertices (h : g.Visit m s m') (hm : m.discovered ⊆ g.vertices) :
    m'.discovered ⊆ g.vertices := by
  induction h with
  | done => exact hm
  | pass _ _ ih => exact ih hm
  | enter hv _ _ _ ihahead ihrest =>
    apply ihrest
    rw [Marks.discovered_finish]
    exact ihahead (by simpa [hv] using hm)

/-- Whatever a walk enters it also leaves. -/
theorem open_iff (h : g.Visit m s m') (hm : m.Sound) : m'.Open w ↔ m.Open w := by
  induction h with
  | done => exact Iff.rfl
  | pass _ _ ih => exact ih hm
  | @enter m below m' v s _ hnew hahead _ ihahead ihrest =>
    have hbelow := hahead.sound (hm.discover v)
    have hentered : v ∈ below.discovered := hahead.discovered_subset (by simp)
    rw [ihrest (hbelow.finish hentered), Marks.open_finish, ihahead (hm.discover v),
      Marks.open_discover hnew hm]
    have hv : w = v → ¬ m.Open w := fun e ho => hnew (e ▸ ho.1)
    tauto

theorem nodup (h : g.Visit m s m') (hm : m.finished.Nodup) : m'.finished.Nodup := by
  induction h with
  | done => exact hm
  | pass _ _ ih => exact ih hm
  | @enter m below m' v s _ _ _ _ ihahead ihrest =>
    apply ihrest
    by_cases hv : v ∈ below.finished
    · rw [Marks.finish_of_mem hv]
      exact ihahead hm
    · rw [Marks.finished_finish_of_notMem hv]
      exact List.nodup_append'.2 ⟨ihahead hm, List.nodup_singleton v, by simpa using hv⟩

theorem reachable (h : g.Visit m s m') (hw : w ∈ m'.discovered) :
    w ∈ m.discovered ∨ ∃ r ∈ s, ReflTransGen g.Edge r w := by
  induction h with
  | done => exact .inl hw
  | pass _ _ ih =>
    rcases ih hw with hold | ⟨r, hr, hreach⟩
    · exact .inl hold
    · exact .inr ⟨r, List.mem_cons_of_mem _ hr, hreach⟩
  | @enter m below m' v s _ _ _ _ ihahead ihrest =>
    rcases ihrest hw with hbelow | ⟨r, hr, hreach⟩
    · rw [Marks.discovered_finish] at hbelow
      rcases ihahead hbelow with hold | ⟨r, hr, hreach⟩
      · rcases List.mem_append.1 hold with hold | hv
        · exact .inl hold
        · exact .inr ⟨v, List.mem_cons_self, by rw [List.mem_singleton.1 hv]⟩
      · exact .inr ⟨v, List.mem_cons_self, .head (mem_ahead.1 hr).1 hreach⟩
    · exact .inr ⟨r, List.mem_cons_of_mem _ hr, hreach⟩

end Visit

theorem length_undiscovered_le (h : m.discovered ⊆ m'.discovered) :
    (g.undiscovered m').length ≤ (g.undiscovered m).length := by
  apply List.Sublist.length_le
  apply List.monotone_filter_right
  intro v hv
  simp only [decide_eq_true_eq] at hv ⊢
  exact fun hm => hv (h hm)

/-- A walk visits the vertices on its stack one after the other, if none of them is open. What it
puts on the stack was not entered yet. When it comes to a copy of a vertex that has been entered
since, then it has left that vertex. -/
theorem visit_explore (hg : g.Closed) (m : Marks α) (s : List α) (hs : s ⊆ g.vertices)
    (hm : m.Sound) (hopen : ∀ v ∈ s, ¬ m.Open v) : g.Visit m s (g.explore m s) := by
  match s with
  | [] =>
    rw [explore_nil]
    exact .done m
  | v :: s =>
    have hv : v ∈ g.vertices := hs List.mem_cons_self
    have hs' : s ⊆ g.vertices := fun w hw => hs (List.mem_cons_of_mem _ hw)
    by_cases hnew : v ∈ m.discovered
    · have hleft : v ∈ m.finished := by
        by_contra hn
        exact hopen v List.mem_cons_self ⟨hnew, hn⟩
      rw [explore_leave hnew, Marks.finish_of_mem hleft]
      exact .pass hleft
        (visit_explore hg m s hs' hm fun w hw => hopen w (List.mem_cons_of_mem _ hw))
    · have hfewer := undiscovered_discover_lt hv hnew
      have hbelow := visit_explore hg (m.discover v) (g.ahead m v)
        (fun w hw => (hg v w (mem_ahead.1 hw).1).2) (hm.discover v) fun w hw ho => by
          obtain ⟨-, hw, hne⟩ := mem_ahead.1 hw
          simp [Marks.Open, hw, hne] at ho
      have hentered : v ∈ (g.explore (m.discover v) (g.ahead m v)).discovered :=
        hbelow.discovered_subset (by simp)
      have hfewer' := length_undiscovered_le (g := g) hbelow.discovered_subset
      rw [explore_enter hv hnew, explore_append, explore_leave hentered]
      refine .enter hv hnew hbelow
        (visit_explore hg _ s hs' ((hbelow.sound (hm.discover v)).finish hentered) ?_)
      intro w hw ho
      obtain ⟨hne, ho⟩ := Marks.open_finish.1 ho
      rw [hbelow.open_iff (hm.discover v), Marks.open_discover hnew hm] at ho
      exact hopen w (List.mem_cons_of_mem _ hw) (ho.resolve_left hne)
termination_by ((g.undiscovered m).length, s.length)
decreasing_by
  · exact Prod.Lex.right _ (by simp)
  · exact Prod.Lex.left _ _ hfewer
  · rw [undiscovered_finish]
    exact Prod.Lex.left _ _ (Nat.lt_of_le_of_lt hfewer' hfewer)

/-- What a walk from the given roots has done when it comes to its end. -/
theorem visit_roots (hg : g.Closed) {roots : List α} (hroots : roots ⊆ g.vertices) :
    g.Visit .empty roots (g.explore .empty roots) :=
  visit_explore hg .empty roots hroots (List.nil_subset _) fun _ _ ho =>
    List.not_mem_nil ho.1

end Patchbay.Digraph
