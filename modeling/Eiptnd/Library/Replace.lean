import Mathlib.Data.List.Basic

/-! Lists in which one element is replaced by another. -/
namespace Replace

universe u v

variable {α : Type u} {β : Type v} {l : List α} {i : Nat} {x y : α}

/-- What looks the same is not noticed. -/
theorem map_set {f : α → β} (found : l[i]? = some x) (same : f y = f x) :
    (l.set i y).map f = l.map f := by
  obtain ⟨bound, rfl⟩ := List.getElem?_eq_some_iff.mp found
  have own : f l[i] = (l.map f).get ⟨i, by simpa using bound⟩ := by simp
  rw [List.map_set, same, own]
  exact List.set_getElem_self _

theorem flatMap_set {f : α → List β} (found : l[i]? = some x) (same : f y = f x) :
    (l.set i y).flatMap f = l.flatMap f := by
  rw [List.flatMap_def, List.flatMap_def, map_set found same]

/-- Every element is the one before, or the new one in place of the old one. -/
theorem getElem?_set (found : l[i]? = some x) (j : Nat) {z : α} :
    (l.set i y)[j]? = some z ↔ j = i ∧ z = y ∨ j ≠ i ∧ l[j]? = some z := by
  obtain ⟨bound, -⟩ := List.getElem?_eq_some_iff.mp found
  by_cases same : j = i
  · subst same
    rw [List.getElem?_set_self bound]
    simp [eq_comm]
  · rw [List.getElem?_set_ne (Ne.symm same)]
    simp [same]

end Replace
