import Patchbay.Patch.Request

/-!
What operations make of a patch: the patches that come of them, where one that is refused leaves the
patch as it was.
-/
namespace Patchbay

namespace Patch

def after (p : Patch) : Operation → Patch
  | .add nodeType args =>
    match p.add nodeType args with
    | .ok (q, _) => q
    | .error _ => p
  | .connect source outlet target inlet =>
    match p.connect source outlet target inlet with
    | .ok q => q
    | .error _ => p
  | .send node inlet m => p.send node inlet m
  | .setInput node inlet value => p.setInput node inlet value
  | .setArray name values => p.setArray name values
  | .record on => p.record on
  | .drainLog => p.drainLog.2
  | .tick =>
    match p.tick with
    | .ok q => q
    | .error _ => p

/-- The patches that finitely many requests make of a new one. -/
inductive Reachable : Patch → Prop
  | new (registry : Registry) (settings : Settings) : Reachable (Patch.new registry settings)
  | after {p : Patch} (hp : Reachable p) (o : Operation) : Reachable (p.after o)

theorem Reachable.foldl_after {p : Patch} (hp : p.Reachable) (os : List Operation) :
    (os.foldl Patch.after p).Reachable := by
  induction os generalizing p with
  | nil => exact hp
  | cons o os ih => exact ih (hp.after o)

theorem reachable_iff {p : Patch} : p.Reachable ↔ ∃ registry settings,
    ∃ os : List Operation, os.foldl Patch.after (Patch.new registry settings) = p := by
  constructor
  · intro hp
    induction hp with
    | new registry settings => exact ⟨registry, settings, [], rfl⟩
    | after _ o ih =>
      obtain ⟨registry, settings, os, hos⟩ := ih
      exact ⟨registry, settings, os ++ [o], by simp [hos]⟩
  · rintro ⟨registry, settings, os, rfl⟩
    exact (Reachable.new registry settings).foldl_after os

end Patch

end Patchbay
