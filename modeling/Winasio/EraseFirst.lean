import Mathlib.Algebra.GroupWithZero.Nat
import Mathlib.Data.List.Basic

/-!
The first element of a list that meets a condition is taken out of it: what
becomes of the others.
-/

namespace Winasio.EraseFirst

universe u v

variable {α : Type u}

theorem filter_eraseP_self (p : α → Bool) (xs : List α) :
    (xs.eraseP p).filter p = (xs.filter p).tail := by
  induction xs with
  | nil => rfl
  | cons x xs ih =>
      cases hx : p x with
      | true => simp [hx]
      | false => simpa [hx] using ih

theorem filter_eraseP_of_disjoint {p q : α → Bool} (h : ∀ x, p x = true → q x = false)
    (xs : List α) : (xs.eraseP p).filter q = xs.filter q := by
  induction xs with
  | nil => rfl
  | cons x xs ih =>
      cases hx : p x with
      | true => simp [hx, h x hx]
      | false => simp [List.filter_cons, hx, ih]

/-- Nothing is lost but the element that was taken out. -/
theorem perm_cons_eraseP {p : α → Bool} {xs : List α} {x : α} (h : xs.find? p = some x) :
    xs.Perm (x :: xs.eraseP p) := by
  induction xs with
  | nil => cases h
  | cons y ys ih =>
      cases hy : p y with
      | true =>
          rw [List.find?_cons_of_pos hy] at h
          rw [List.eraseP_cons_of_pos hy, Option.some.inj h]
      | false =>
          rw [List.find?_cons_of_neg (by simp [hy])] at h
          rw [List.eraseP_cons_of_neg (by simp [hy])]
          exact ((ih h).cons y).trans (.swap x y _)

theorem mem_eraseP_or_eq {p : α → Bool} {xs : List α} {x y : α} (hx : x ∈ xs)
    (hy : xs.find? p = some y) : x ∈ xs.eraseP p ∨ x = y :=
  (List.mem_cons.mp ((perm_cons_eraseP hy).mem_iff.mp hx)).symm

theorem countP_eraseP {p : α → Bool} (q : α → Bool) {xs : List α} {x : α}
    (h : xs.find? p = some x) :
    (xs.eraseP p).countP q + (if q x then 1 else 0) = xs.countP q := by
  rw [(perm_cons_eraseP h).countP_eq, List.countP_cons]

theorem sum_map_eraseP {p : α → Bool} (f : α → Nat) {xs : List α} {x : α}
    (h : xs.find? p = some x) : ((xs.eraseP p).map f).sum + f x = (xs.map f).sum := by
  rw [((perm_cons_eraseP h).map f).sum_nat, List.map_cons, List.sum_cons, Nat.add_comm]

theorem find?_append_cons {p : α → Bool} {xs : List α} {x : α} (ys : List α)
    (hxs : ∀ y ∈ xs, p y = false) (hx : p x = true) : (xs ++ x :: ys).find? p = some x := by
  rw [List.find?_append, List.find?_eq_none.mpr (by simpa using hxs), Option.none_or,
    List.find?_cons_of_pos hx]

theorem eraseP_append_cons {p : α → Bool} {xs : List α} {x : α} (ys : List α)
    (hxs : ∀ y ∈ xs, p y = false) (hx : p x = true) : (xs ++ x :: ys).eraseP p = xs ++ ys := by
  rw [List.eraseP_append_right _ (by simpa using hxs), List.eraseP_cons_of_pos hx]

section Key

variable {κ : Type v} [DecidableEq κ] {key : α → κ} {xs : List α}

theorem key_ne_of_mem_eraseP {k : κ} {x y : α} (hxs : (xs.map key).Nodup)
    (hx : xs.find? (key · = k) = some x) (hy : y ∈ xs.eraseP (key · = k)) : key y ≠ k := by
  have hkey : key x = k := by simpa using List.find?_some hx
  have hnodup := ((perm_cons_eraseP hx).map key).nodup_iff.mp hxs
  rw [List.map_cons, List.nodup_cons, hkey] at hnodup
  rintro rfl
  exact hnodup.1 (List.mem_map_of_mem hy)

theorem find?_key {x : α} (hxs : (xs.map key).Nodup) (hx : x ∈ xs) :
    xs.find? (key · = key x) = some x := by
  obtain ⟨before, after, rfl⟩ := List.append_of_mem hx
  refine find?_append_cons after ?_ (by simp)
  rintro y hy
  rw [List.map_append, List.map_cons, List.nodup_append] at hxs
  simpa using hxs.2.2 (key y) (List.mem_map_of_mem hy) (key x) (by simp)

end Key

/-- The numbers given out so far, and the next one. -/
theorem perm_range_succ {xs ys : List Nat} {n : Nat} (hxs : xs.Perm (List.range n))
    (h : ys.Perm (n :: xs)) : ys.Perm (List.range (n + 1)) := by
  rw [List.range_succ]
  exact h.trans ((hxs.cons n).trans (List.perm_append_singleton n _).symm)

end Winasio.EraseFirst
