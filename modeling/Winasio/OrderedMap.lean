import Mathlib.Data.List.Basic

/-!
Maps as lists of entries with strictly increasing keys. Keys that are neither
smaller nor greater than each other count as the same key.
-/

namespace Winasio

universe u v

@[ext] structure OrderedMap (κ : Type u) (ν : Type v) [LT κ] where
  entries : List (κ × ν)
  sorted : (entries.map Prod.fst).Pairwise (· < ·)

namespace OrderedMap

variable {κ : Type u} {ν : Type v} [LT κ]

def empty : OrderedMap κ ν := ⟨[], List.Pairwise.nil⟩

instance : Inhabited (OrderedMap κ ν) := ⟨empty⟩

def keys (m : OrderedMap κ ν) : List κ := m.entries.map Prod.fst

def get? [DecidableLT κ] (m : OrderedMap κ ν) (k : κ) : Option ν :=
  (m.entries.find? fun entry => ¬ entry.1 < k ∧ ¬ k < entry.1).map Prod.snd

/-- Assign a value to a key, in its place in the order; a key that is there
stays. -/
def assignEntries [DecidableLT κ] (k : κ) (v : ν) : List (κ × ν) → List (κ × ν)
  | [] => [(k, v)]
  | (k', v') :: entries =>
      if k < k' then (k, v) :: (k', v') :: entries
      else if k' < k then (k', v') :: assignEntries k v entries
      else (k', v) :: entries

theorem mem_keys_assignEntries [DecidableLT κ] {k x : κ} {v : ν} {entries : List (κ × ν)}
    (hx : x ∈ (assignEntries k v entries).map Prod.fst) :
    x = k ∨ x ∈ entries.map Prod.fst := by
  induction entries with
  | nil => exact .inl (List.mem_singleton.mp hx)
  | cons entry entries ih =>
      unfold assignEntries at hx
      split at hx
      · exact List.mem_cons.mp hx
      · split at hx
        · rcases List.mem_cons.mp hx with hx | hx
          · exact .inr (List.mem_cons.mpr (.inl hx))
          · exact (ih hx).imp_right (List.mem_cons_of_mem _)
        · exact .inr hx

theorem mem_keys_assignEntries_of_mem [DecidableLT κ] {k x : κ} {v : ν}
    {entries : List (κ × ν)} (hx : x ∈ entries.map Prod.fst) :
    x ∈ (assignEntries k v entries).map Prod.fst := by
  induction entries with
  | nil => cases hx
  | cons entry entries ih =>
      unfold assignEntries
      split
      · exact List.mem_cons_of_mem _ hx
      · split
        · rcases List.mem_cons.mp hx with hx | hx
          · exact List.mem_cons.mpr (.inl hx)
          · exact List.mem_cons_of_mem _ (ih hx)
        · exact hx

theorem sorted_assignEntries [DecidableLT κ] [Trans (LT.lt : κ → κ → Prop) LT.lt LT.lt]
    (k : κ) (v : ν) {entries : List (κ × ν)}
    (h : (entries.map Prod.fst).Pairwise (· < ·)) :
    ((assignEntries k v entries).map Prod.fst).Pairwise (· < ·) := by
  induction entries with
  | nil => exact List.pairwise_singleton _ _
  | cons entry entries ih =>
      obtain ⟨k', v'⟩ := entry
      obtain ⟨hfirst, hrest⟩ := List.pairwise_cons.mp h
      unfold assignEntries
      split
      · next hlt =>
          refine List.pairwise_cons.mpr ⟨fun x hx => ?_, h⟩
          rcases List.mem_cons.mp hx with rfl | hx
          · exact hlt
          · exact Trans.trans hlt (hfirst x hx)
      · split
        · next hgt =>
            refine List.pairwise_cons.mpr ⟨fun x hx => ?_, ih hrest⟩
            rcases mem_keys_assignEntries hx with rfl | hx
            · exact hgt
            · exact hfirst x hx
        · exact h

section Assign

variable [DecidableLT κ] [Trans (LT.lt : κ → κ → Prop) LT.lt LT.lt]

def assign (m : OrderedMap κ ν) (k : κ) (v : ν) : OrderedMap κ ν :=
  ⟨assignEntries k v m.entries, sorted_assignEntries k v m.sorted⟩

/-- `operator[]`: the value at a key, to which a default value is assigned first
if it is not there. -/
def index (m : OrderedMap κ ν) (k : κ) (default : ν) : ν × OrderedMap κ ν :=
  match m.get? k with
  | some v => (v, m)
  | none => (default, m.assign k default)

theorem index_of_get? {m : OrderedMap κ ν} {k : κ} {v : ν} (h : m.get? k = some v)
    (default : ν) : m.index k default = (v, m) := by
  rw [index, h]

theorem index_fst (m : OrderedMap κ ν) (k : κ) (default : ν) :
    (m.index k default).1 = (m.get? k).getD default := by
  rw [index]
  cases m.get? k <;> rfl

theorem mem_keys_assign {m : OrderedMap κ ν} {x : κ} (hx : x ∈ m.keys) (k : κ) (v : ν) :
    x ∈ (m.assign k v).keys :=
  mem_keys_assignEntries_of_mem hx

theorem entries_assign_ne_nil (m : OrderedMap κ ν) (k : κ) (v : ν) :
    (m.assign k v).entries ≠ [] := by
  change assignEntries k v m.entries ≠ []
  rcases m.entries with _ | ⟨⟨k', v'⟩, entries⟩
  · exact List.cons_ne_nil _ _
  · unfold assignEntries
    split
    · exact List.cons_ne_nil _ _
    · split
      · exact List.cons_ne_nil _ _
      · exact List.cons_ne_nil _ _

end Assign

section Lookup

variable [DecidableLT κ] [Std.Irrefl (LT.lt : κ → κ → Prop)]

theorem find?_entries {k : κ} {v : ν} {entries : List (κ × ν)}
    (h : (entries.map Prod.fst).Pairwise (· < ·)) (hmem : (k, v) ∈ entries) :
    (entries.find? fun entry => ¬ entry.1 < k ∧ ¬ k < entry.1) = some (k, v) := by
  induction entries with
  | nil => cases hmem
  | cons entry entries ih =>
      obtain ⟨hfirst, hrest⟩ := List.pairwise_cons.mp h
      rcases List.mem_cons.mp hmem with rfl | hmem
      · exact List.find?_cons_of_pos (by simp [Std.Irrefl.irrefl k])
      · have hlt : entry.1 < k := hfirst k (List.mem_map.mpr ⟨_, hmem, rfl⟩)
        rw [List.find?_cons_of_neg (by simp [hlt])]
        exact ih hrest hmem

variable [Std.Trichotomous (LT.lt : κ → κ → Prop)]

theorem get?_eq_some_iff {m : OrderedMap κ ν} {k : κ} {v : ν} :
    m.get? k = some v ↔ (k, v) ∈ m.entries := by
  constructor
  · intro h
    obtain ⟨⟨k', v'⟩, hfind, rfl⟩ := Option.map_eq_some_iff.mp h
    have hmem := List.mem_of_find?_eq_some hfind
    obtain ⟨hle, hge⟩ : ¬ k' < k ∧ ¬ k < k' := by simpa using List.find?_some hfind
    rwa [Std.Trichotomous.trichotomous k' k hle hge] at hmem
  · intro h
    rw [get?, find?_entries m.sorted h]
    rfl

variable [Trans (LT.lt : κ → κ → Prop) LT.lt LT.lt]

theorem mem_assignEntries {k x : κ} {v w : ν} {entries : List (κ × ν)}
    (h : (entries.map Prod.fst).Pairwise (· < ·)) :
    (x, w) ∈ assignEntries k v entries ↔ x = k ∧ w = v ∨ x ≠ k ∧ (x, w) ∈ entries := by
  induction entries with
  | nil => simp [assignEntries]
  | cons entry entries ih =>
      obtain ⟨k', v'⟩ := entry
      obtain ⟨hfirst, hrest⟩ := List.pairwise_cons.mp h
      have hafter : (x, w) ∈ entries → k' < x := fun hx =>
        hfirst x (List.mem_map.mpr ⟨_, hx, rfl⟩)
      have hne : ∀ {a b : κ}, a < b → b ≠ a := by
        rintro a _ hlt rfl
        exact Std.Irrefl.irrefl _ hlt
      simp only [assignEntries]
      split
      · next hlt =>
          have hx : (x, w) ∈ (k', v') :: entries → x ≠ k := by
            intro hx
            rcases List.mem_cons.mp hx with hx | hx
            · cases hx
              exact hne hlt
            · exact hne (Trans.trans hlt (hafter hx))
          rw [List.mem_cons, Prod.mk.injEq]
          exact or_congr_right (iff_and_self.mpr hx)
      · split
        · next hgt =>
            have hx : (x, w) = (k', v') → x ≠ k := by
              intro hx
              cases hx
              exact (hne hgt).symm
            rw [List.mem_cons, ih hrest, List.mem_cons, and_or_left, or_left_comm]
            exact or_congr_right (or_congr_left ⟨fun heq => ⟨hx heq, heq⟩, And.right⟩)
        · next hlt hgt =>
            obtain rfl := Std.Trichotomous.trichotomous k k' hlt hgt
            have hx : (x, w) ∈ entries → x ≠ k := fun hx => hne (hafter hx)
            rw [List.mem_cons, List.mem_cons, Prod.mk.injEq, Prod.mk.injEq]
            constructor
            · exact Or.imp_right fun hmem => ⟨hx hmem, .inr hmem⟩
            · rintro (hself | ⟨hne, ⟨heq, -⟩ | hmem⟩)
              · exact .inl hself
              · exact absurd heq hne
              · exact .inr hmem

theorem get?_assign_self (m : OrderedMap κ ν) (k : κ) (v : ν) :
    (m.assign k v).get? k = some v :=
  get?_eq_some_iff.mpr ((mem_assignEntries m.sorted).mpr (.inl ⟨rfl, rfl⟩))

theorem get?_assign_of_ne (m : OrderedMap κ ν) {k x : κ} (hx : x ≠ k) (v : ν) :
    (m.assign k v).get? x = m.get? x := by
  ext w
  rw [get?_eq_some_iff, get?_eq_some_iff]
  refine (mem_assignEntries m.sorted).trans ⟨fun h => ?_, fun h => .inr ⟨hx, h⟩⟩
  rcases h with ⟨rfl, -⟩ | ⟨-, h⟩
  · exact absurd rfl hx
  · exact h

theorem get?_index_of_ne (m : OrderedMap κ ν) {k x : κ} (hx : x ≠ k) (default : ν) :
    (m.index k default).2.get? x = m.get? x := by
  rw [index]
  split
  · rfl
  · exact get?_assign_of_ne m hx default

end Lookup

end OrderedMap

end Winasio
