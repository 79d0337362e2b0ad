import Mathlib.Data.List.Basic

/-!
A growable buffer over a vector: its first elements are committed, and the
elements behind them are room that was prepared and may be written to before
it is committed.
-/

namespace Winasio

universe u

def resize {α : Type u} [Inhabited α] (xs : List α) (n : Nat) : List α :=
  xs.take n ++ List.replicate (n - xs.length) default

@[simp] theorem length_resize {α : Type u} [Inhabited α] (xs : List α) (n : Nat) :
    (resize xs n).length = n := by
  simp only [resize, List.length_append, List.length_take, List.length_replicate]
  omega

theorem take_resize {α : Type u} [Inhabited α] {xs : List α} {k n : Nat}
    (hxs : k ≤ xs.length) (hn : k ≤ n) : (resize xs n).take k = xs.take k := by
  rw [resize, List.take_append_of_le_length (by simp; omega), List.take_take]
  congr 1
  omega

theorem resize_append {α : Type u} [Inhabited α] (xs ys : List α) (n : Nat) :
    resize (xs ++ ys) (xs.length + n) = xs ++ resize ys n := by
  simp only [resize, List.take_length_add_append, List.append_assoc, List.length_append]
  congr 3
  omega

theorem resize_of_le {α : Type u} [Inhabited α] {xs : List α} {n : Nat}
    (h : n ≤ xs.length) : resize xs n = xs.take n := by
  simp [resize, Nat.sub_eq_zero_of_le h]

/-- The vector is the committed elements followed by the spare ones. -/
@[ext] structure DynamicBuffer (α : Type u) where
  committed : List α := []
  spare : List α := []
  deriving DecidableEq, Repr

namespace DynamicBuffer

variable {α : Type u}

def ofVector (xs : List α) : DynamicBuffer α := { committed := xs }

def vector (b : DynamicBuffer α) : List α := b.committed ++ b.spare

def size (b : DynamicBuffer α) : Nat := b.committed.length

/-- Make room for exactly `n` elements behind the committed ones. -/
def prepare [Inhabited α] (b : DynamicBuffer α) (n : Nat) : DynamicBuffer α :=
  { b with spare := resize b.spare n }

/-- Commit `n` of the spare elements, or as many as there are, and drop the
others. -/
def commit (b : DynamicBuffer α) (n : Nat) : DynamicBuffer α :=
  { committed := b.committed ++ b.spare.take n }

def write (b : DynamicBuffer α) (xs : List α) : DynamicBuffer α :=
  { b with spare := xs ++ b.spare.drop xs.length }

@[simp] theorem length_spare_prepare [Inhabited α] (b : DynamicBuffer α) (n : Nat) :
    (b.prepare n).spare.length = n := length_resize b.spare n

theorem vector_prepare [Inhabited α] (b : DynamicBuffer α) (n : Nat) :
    (b.prepare n).vector = resize b.vector (b.size + n) :=
  (resize_append b.committed b.spare n).symm

theorem size_commit (b : DynamicBuffer α) (n : Nat) :
    (b.commit n).size = b.size + min n b.spare.length := by
  simp [size, commit]

theorem vector_commit [Inhabited α] (b : DynamicBuffer α) (n : Nat) :
    (b.commit n).vector = resize b.vector (b.commit n).size := by
  rw [size_commit, vector, vector, size, resize_append, resize_of_le (Nat.min_le_right _ _),
    ← List.take_eq_take_min]
  simp [commit]

theorem commit_write (b : DynamicBuffer α) (xs : List α) :
    (b.write xs).commit xs.length = ofVector (b.committed ++ xs) := by
  simp [commit, write, ofVector]

end DynamicBuffer

end Winasio
