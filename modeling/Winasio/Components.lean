import Mathlib.Algebra.GroupWithZero.Nat
import Mathlib.Data.List.Basic
import Mathlib.Data.List.Perm.Basic

/-!
A list of components of which one is changed, or one is taken out: what becomes
of the facts about the whole list.
-/

namespace Winasio.Components

universe u v

variable {α : Type u} {β : Type v} {xs : List α} {i : Nat} {x : α}

/-- The changed component in its place between the others. -/
theorem exists_split (hx : xs[i]? = some x) (y : α) :
    ∃ before after, xs = before ++ x :: after ∧ xs.set i y = before ++ y :: after := by
  obtain ⟨hlt, rfl⟩ := List.getElem?_eq_some_iff.mp hx
  obtain ⟨before, after, hxs, -, hset⟩ : ∃ before after, xs = before ++ xs[i] :: after ∧
      before.length = i ∧ xs.set i y = before ++ y :: after := List.exists_of_set hlt
  exact ⟨before, after, hxs, hset⟩

theorem exists_set_iff {P : α → Prop} {y : α} (hx : xs[i]? = some x) (hP : P y ↔ P x) (j : Nat) :
    (∃ z, (xs.set i y)[j]? = some z ∧ P z) ↔ ∃ z, xs[j]? = some z ∧ P z := by
  by_cases hij : i = j
  · subst hij
    rw [List.getElem?_set_self (List.getElem?_eq_some_iff.mp hx).1, hx]
    simp [hP]
  · rw [List.getElem?_set_ne hij]

theorem filterMap_set {f : α → Option β} {y : α} (hx : xs[i]? = some x) (hf : f y = f x) :
    (xs.set i y).filterMap f = xs.filterMap f := by
  obtain ⟨before, after, hxs, hset⟩ := exists_split hx y
  rw [hset]
  conv_rhs => rw [hxs]
  simp only [List.filterMap_append, List.filterMap_cons, hf]

theorem filterMap_set_perm {f : α → Option β} {y : α} {b : β} (hx : xs[i]? = some x)
    (hfx : f x = none) (hfy : f y = some b) :
    ((xs.set i y).filterMap f).Perm (b :: xs.filterMap f) := by
  obtain ⟨before, after, hxs, hset⟩ := exists_split hx y
  have hold : xs.filterMap f = before.filterMap f ++ after.filterMap f := by
    conv_lhs => rw [hxs]
    simp only [List.filterMap_append, List.filterMap_cons, hfx]
  rw [hset, hold, List.filterMap_append, List.filterMap_cons, hfy]
  exact List.perm_middle

theorem sum_map_set (w : α → Nat) (hx : xs[i]? = some x) (y : α) :
    ((xs.set i y).map w).sum + w x = (xs.map w).sum + w y := by
  obtain ⟨before, after, hxs, hset⟩ := exists_split hx y
  have hold : (xs.map w).sum = (before.map w).sum + (w x + (after.map w).sum) := by
    conv_lhs => rw [hxs]
    simp only [List.map_append, List.map_cons, List.sum_append, List.sum_cons]
  rw [hset, hold]
  simp only [List.map_append, List.map_cons, List.sum_append, List.sum_cons]
  omega

theorem perm_cons_eraseIdx (hx : xs[i]? = some x) : (x :: xs.eraseIdx i).Perm xs := by
  obtain ⟨hlt, rfl⟩ := List.getElem?_eq_some_iff.mp hx
  exact List.getElem_cons_eraseIdx_perm hlt

theorem sum_map_eraseIdx (w : α → Nat) (hx : xs[i]? = some x) :
    ((xs.eraseIdx i).map w).sum + w x = (xs.map w).sum := by
  rw [← ((perm_cons_eraseIdx hx).map w).sum_nat, List.map_cons, List.sum_cons, Nat.add_comm]

end Winasio.Components
