/-!
Values under names, as lists of pairs in the order in which the names came up. A name that is there
keeps its place.
-/
namespace Patchbay.Keyed
variable {α : Type}

/-- Puts a value under a name, in place of the one that is there. -/
def put (name : String) (value : α) : List (String × α) → List (String × α)
  | [] => [(name, value)]
  | (n, old) :: rest => if n = name then (n, value) :: rest else (n, old) :: put name value rest

@[simp] theorem lookup_put (name n : String) (value : α) (entries : List (String × α)) :
    (put name value entries).lookup n = if n = name then some value else entries.lookup n := by
  have key : ∀ (m : String) (v : α) (rest : List (String × α)),
      List.lookup n ((m, v) :: rest) = if n = m then some v else rest.lookup n := by
    intro m v rest
    by_cases h : n = m
    · simp [h]
    · have hb : (n == m) = false := by simpa using h
      simp [List.lookup_cons, hb, h]
  induction entries with
  | nil => simp only [put, key, List.lookup_nil]
  | cons e rest ih =>
    obtain ⟨m, old⟩ := e
    by_cases hm : m = name
    · subst hm
      by_cases h : n = m <;> simp [put, key, h]
    · by_cases h : n = m
      · subst h
        simp [put, key, hm]
      · simp [put, key, hm, h, ih]

end Patchbay.Keyed
