import Mathlib.Data.List.Basic

/-!
Texts cut at the leftmost occurrences of a delimiter, and the texts that are
put together with it.
-/

namespace Winasio

universe u

/-- A text no proper part of which is both its beginning and its end, so that
two occurrences of it never overlap. -/
structure Delimiter (α : Type u) where
  text : List α
  ne_nil : text ≠ []
  unbordered : ∀ t, t <+: text → t <:+ text → t = [] ∨ t = text

namespace Delimiter

variable {α : Type u}

theorem unbordered_pair {a b : α} (hab : a ≠ b) (t : List α) (hstart : t <+: [a, b])
    (hend : t <:+ [a, b]) : t = [] ∨ t = [a, b] := by
  rcases t with _ | ⟨x, _ | ⟨y, t⟩⟩
  · exact .inl rfl
  · have hx : x = a := by simpa using hstart
    have hx' : x = b := by simpa [List.suffix_cons_iff] using hend
    exact absurd (hx.symm.trans hx') hab
  · have hlength := hstart.length_le
    exact .inr (hstart.eq_of_length (by simp at hlength ⊢; omega))

/-- A delimiter of two distinct elements. -/
def pair (a b : α) (hab : a ≠ b) : Delimiter α :=
  ⟨[a, b], List.cons_ne_nil a [b], unbordered_pair hab⟩

@[simp] theorem text_pair (a b : α) (hab : a ≠ b) : (pair a b hab).text = [a, b] := rfl

/-- An element the delimiter does not have separates its occurrences. -/
theorem infix_append_cons_iff {sep : Delimiter α} {c : α} (hc : c ∉ sep.text)
    {xs ys : List α} :
    sep.text <:+: xs ++ c :: ys ↔ sep.text <:+: xs ∨ sep.text <:+: ys := by
  constructor
  · intro h
    rcases List.infix_append_iff.mp h with hxs | hys | ⟨t₁, t₂, htext, hxs, hys⟩
    · exact .inl hxs
    · rcases List.infix_cons_iff.mp hys with hstart | hys
      · rcases List.prefix_cons_iff.mp hstart with hnil | ⟨t, htext, -⟩
        · exact absurd hnil sep.ne_nil
        · exact absurd (htext ▸ List.mem_cons_self) hc
      · exact .inr hys
    · rcases List.prefix_cons_iff.mp hys with rfl | ⟨t, rfl, -⟩
      · rw [List.append_nil] at htext
        exact .inl (htext ▸ hxs.isInfix)
      · exact absurd (htext ▸ List.mem_append_right t₁ List.mem_cons_self) hc
  · rintro (hxs | hys)
    · exact List.infix_append_of_infix_left hxs
    · exact List.infix_append_of_infix_right (List.infix_cons hys)

/-- The first occurrence behind a text without one does not begin in it. -/
theorem not_prefix_append {sep : Delimiter α} {xs : List α} (hxs : xs ≠ [])
    (hsep : ¬ sep.text <:+: xs) (ys : List α) : ¬ sep.text <+: xs ++ (sep.text ++ ys) := by
  rintro ⟨zs, hzs⟩
  rcases List.append_eq_append_iff.mp hzs with ⟨t, hxs', -⟩ | ⟨t, htext, hrest⟩
  · exact hsep ⟨[], t, hxs'.symm⟩
  · have hstart : t <+: sep.text := by
      refine List.prefix_of_prefix_length_le ⟨zs, hrest.symm⟩ (List.prefix_append sep.text ys) ?_
      have hlength := congrArg List.length htext
      rw [List.length_append] at hlength
      omega
    rcases sep.unbordered t hstart ⟨xs, htext.symm⟩ with rfl | rfl
    · rw [List.append_nil] at htext
      exact hsep (htext ▸ List.infix_rfl)
    · exact hxs (List.self_eq_append_left.mp htext)

theorem intercalate_append_cons (sep a b : List α) (ls : List (List α)) :
    sep.intercalate ((a ++ b) :: ls) = a ++ sep.intercalate (b :: ls) := by
  cases ls with
  | nil => rw [List.intercalate_singleton, List.intercalate_singleton]
  | cons l ls =>
      rw [List.intercalate_cons_cons, List.intercalate_cons_cons, List.append_assoc a b,
        List.append_assoc a]

variable [DecidableEq α]

/-- What stands before and after the leftmost occurrence of the delimiter. -/
def cut (sep : Delimiter α) : List α → Option (List α × List α)
  | [] => none
  | x :: xs =>
      if sep.text <+: x :: xs then some ([], (x :: xs).drop sep.text.length)
      else (sep.cut xs).map fun parts => (x :: parts.1, parts.2)

theorem cut_eq_none_iff {sep : Delimiter α} {xs : List α} :
    sep.cut xs = none ↔ ¬ sep.text <:+: xs := by
  induction xs with
  | nil => simp [cut, sep.ne_nil]
  | cons x xs ih =>
      rw [cut, List.infix_cons_iff]
      split
      · next h => simp [h]
      · next h => simp [h, ih]

theorem eq_of_cut {sep : Delimiter α} {xs a b : List α} (h : sep.cut xs = some (a, b)) :
    xs = a ++ (sep.text ++ b) ∧ ¬ sep.text <:+: a := by
  induction xs generalizing a with
  | nil => cases h
  | cons x xs ih =>
      rw [cut] at h
      split at h
      · next hstart =>
          cases h
          refine ⟨(List.prefix_iff_eq_append.mp hstart).symm, ?_⟩
          rw [List.infix_nil]
          exact sep.ne_nil
      · next hstart =>
          obtain ⟨⟨a', b'⟩, hcut, hab⟩ := Option.map_eq_some_iff.mp h
          cases hab
          obtain ⟨rfl, hsep⟩ := ih hcut
          refine ⟨rfl, fun hfound => ?_⟩
          rcases List.infix_cons_iff.mp hfound with hcons | htail
          · exact hstart (hcons.trans (List.prefix_append (x :: a') _))
          · exact hsep htail

theorem cut_append {sep : Delimiter α} {a : List α} (hsep : ¬ sep.text <:+: a) (b : List α) :
    sep.cut (a ++ (sep.text ++ b)) = some (a, b) := by
  induction a with
  | nil =>
      obtain ⟨c, text, htext⟩ := List.exists_cons_of_ne_nil sep.ne_nil
      rw [List.nil_append, htext, List.cons_append, cut, ← List.cons_append, ← htext,
        if_pos (List.prefix_append _ _), List.drop_left]
  | cons x a ih =>
      have hstart := not_prefix_append (List.cons_ne_nil x a) hsep b
      rw [List.cons_append] at hstart ⊢
      rw [cut, if_neg hstart, ih fun ha => hsep (List.infix_cons ha)]
      rfl

theorem cut_eq_some_iff {sep : Delimiter α} {xs : List α} {p : List α × List α} :
    sep.cut xs = some p ↔ xs = p.1 ++ (sep.text ++ p.2) ∧ ¬ sep.text <:+: p.1 := by
  constructor
  · exact eq_of_cut
  · rintro ⟨rfl, hsep⟩
    exact cut_append hsep p.2

theorem length_lt_of_cut {sep : Delimiter α} {xs a b : List α} (h : sep.cut xs = some (a, b)) :
    b.length < xs.length := by
  have hpos := List.length_pos_iff.mpr sep.ne_nil
  have hlength := congrArg List.length (eq_of_cut h).1
  simp at hlength
  omega

theorem map_cut_eq_iff {sep : Delimiter α} {xss : List (List α)}
    {parts : List (List α × List α)} :
    xss.map sep.cut = parts.map some ↔
      xss = parts.map (fun p => p.1 ++ (sep.text ++ p.2)) ∧ ∀ p ∈ parts, ¬ sep.text <:+: p.1 := by
  induction xss generalizing parts with
  | nil => cases parts <;> simp
  | cons xs xss ih =>
      cases parts with
      | nil => simp
      | cons p parts =>
          simp only [List.map_cons, List.cons.injEq, List.forall_mem_cons, cut_eq_some_iff, ih]
          exact and_and_and_comm

/-- A text split at each delimiter from the left. -/
def pieces (sep : Delimiter α) (xs : List α) : List (List α) :=
  match _h : sep.cut xs with
  | none => [xs]
  | some (a, b) => a :: sep.pieces b
termination_by xs.length
decreasing_by exact length_lt_of_cut _h

theorem pieces_of_not_found {sep : Delimiter α} {xs : List α} (h : ¬ sep.text <:+: xs) :
    sep.pieces xs = [xs] := by
  rw [pieces]
  split
  · rfl
  · next a b hcut => simp [cut_eq_none_iff.mpr h] at hcut

theorem pieces_append {sep : Delimiter α} {a : List α} (h : ¬ sep.text <:+: a) (b : List α) :
    sep.pieces (a ++ (sep.text ++ b)) = a :: sep.pieces b := by
  rw [pieces]
  split
  · next hcut => simp [cut_append h] at hcut
  · next a' b' hcut =>
      rw [cut_append h] at hcut
      cases hcut
      rfl

theorem not_infix_of_mem_pieces {sep : Delimiter α} {xs piece : List α}
    (h : piece ∈ sep.pieces xs) : ¬ sep.text <:+: piece := by
  induction xs using pieces.induct sep with
  | case1 xs hcut =>
      have hsep := cut_eq_none_iff.mp hcut
      rw [pieces_of_not_found hsep, List.mem_singleton] at h
      exact h ▸ hsep
  | case2 xs a b hcut ih =>
      obtain ⟨rfl, hsep⟩ := eq_of_cut hcut
      rw [pieces_append hsep, List.mem_cons] at h
      rcases h with rfl | h
      · exact hsep
      · exact ih h

theorem pieces_intercalate {sep : Delimiter α} {ls : List (List α)} (hne : ls ≠ [])
    (hls : ∀ l ∈ ls, ¬ sep.text <:+: l) : sep.pieces (sep.text.intercalate ls) = ls := by
  induction ls with
  | nil => exact absurd rfl hne
  | cons l ls ih =>
      obtain ⟨hl, hls⟩ := List.forall_mem_cons.mp hls
      cases ls with
      | nil => rw [List.intercalate_singleton, pieces_of_not_found hl]
      | cons l' ls =>
          rw [List.intercalate_cons_cons, List.append_assoc, pieces_append hl,
            ih (List.cons_ne_nil l' ls) hls]

/-- The texts put together with the delimiter are the pieces again exactly if
none of them contains it. -/
theorem pieces_intercalate_iff (sep : Delimiter α) {ls : List (List α)} (hne : ls ≠ []) :
    sep.pieces (sep.text.intercalate ls) = ls ↔ ∀ l ∈ ls, ¬ sep.text <:+: l := by
  constructor
  · intro h l hl
    rw [← h] at hl
    exact not_infix_of_mem_pieces hl
  · exact pieces_intercalate hne

end Delimiter

end Winasio
