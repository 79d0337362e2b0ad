import Mathlib.Logic.Equiv.Basic
import Winasio.ClientPayload
import Winasio.Transition

/-!
The objects of `header::accept_types` in a program: constructed, copied and
moved by their implicit members, which copy and move the pointers that `get`
has handed out like the strings themselves.
-/

namespace Winasio.ClientPayload

open Winasio.Transition

namespace AcceptTypes

/-- The strings of a copy are strings of its own, but the pointers are those of
the original. -/
def copy (x : AcceptTypes) (owner : Nat) : AcceptTypes := { x with owner }

/-- What is left of an object that was moved from. -/
def movedFrom (owner : Nat) : AcceptTypes := { owner, data := [] }

/-- One pointer to each string of the object. -/
def pointers (x : AcceptTypes) : List (Option StringPtr) :=
  (List.range x.data.length).map fun i => some ⟨x.owner, i⟩

/-- The array that `get` returns, up to its first null, points to each string
of the object, and there is one exactly if there are strings. -/
def Describes (x : AcceptTypes) : Prop :=
  (x.get.2 = none ↔ x.data = []) ∧
    ∀ array, x.get.2 = some array → array.takeWhile Option.isSome = x.pointers

/-- Either no pointer was handed out, or the own ones come first. -/
def Current (x : AcceptTypes) : Prop :=
  x.output = [] ∨ (x.data ≠ [] ∧ ∃ rest, x.output = x.pointers ++ none :: rest)

theorem get_of_nil {x : AcceptTypes} (hx : x.data = []) : x.get = (x, none) := by
  simp [get, hx]

theorem get_of_ne_nil {x : AcceptTypes} (hx : x.data ≠ []) :
    x.get = ({ x with output := x.output ++ x.pointers ++ [none] },
      some (x.output ++ x.pointers ++ [none])) := by
  simp [get, hx, pointers]

@[simp] theorem owner_get (x : AcceptTypes) : x.get.1.owner = x.owner := by
  rcases eq_or_ne x.data [] with hx | hx
  · rw [get_of_nil hx]
  · rw [get_of_ne_nil hx]

theorem takeWhile_pointers (x : AcceptTypes) (rest : List (Option StringPtr)) :
    (x.pointers ++ none :: rest).takeWhile Option.isSome = x.pointers := by
  have hsome : ∀ p ∈ x.pointers, p.isSome = true := by
    intro p hp
    obtain ⟨i, -, rfl⟩ := List.mem_map.mp hp
    rfl
  rw [List.takeWhile_append_of_pos hsome, List.takeWhile_cons_of_neg (by simp),
    List.append_nil]

theorem Current.exists_get {x : AcceptTypes} (h : x.Current) (hx : x.data ≠ []) :
    ∃ rest, x.get.2 = some (x.pointers ++ none :: rest) := by
  rw [get_of_ne_nil hx]
  rcases h with houtput | ⟨-, rest, houtput⟩
  · exact ⟨[], by rw [houtput, List.nil_append]⟩
  · exact ⟨rest ++ x.pointers ++ [none], by simp [houtput]⟩

theorem Current.get {x : AcceptTypes} (h : x.Current) : x.get.1.Current := by
  rcases eq_or_ne x.data [] with hx | hx
  · rwa [get_of_nil hx]
  · obtain ⟨rest, hget⟩ := h.exists_get hx
    rw [get_of_ne_nil hx] at hget ⊢
    exact .inr ⟨hx, rest, Option.some.inj hget⟩

theorem Current.describes {x : AcceptTypes} (h : x.Current) : x.Describes := by
  rcases eq_or_ne x.data [] with hx | hx
  · simp [Describes, get_of_nil hx, hx]
  · obtain ⟨rest, hget⟩ := h.exists_get hx
    refine ⟨by simp [hget, hx], fun array harray => ?_⟩
    rw [hget] at harray
    cases harray
    exact x.takeWhile_pointers rest

theorem getElem?_pointers {x : AcceptTypes} (hx : x.data ≠ []) :
    x.pointers[0]? = some (some ⟨x.owner, 0⟩) := by
  have hpos := List.length_pos_iff.mpr hx
  simp [pointers, hpos]

/-- A copy taken after `get` hands out the pointers of the original. -/
theorem not_describes_copy {x : AcceptTypes} (h : x.Current) (houtput : x.output ≠ [])
    {owner : Nat} (howner : x.owner ≠ owner) : ¬ (x.copy owner).Describes := by
  rintro ⟨-, hget⟩
  rcases h with hnil | ⟨hx, rest, hrest⟩
  · exact houtput hnil
  · have hcopy : (x.copy owner).data ≠ [] := hx
    have harray := hget _ (congrArg Prod.snd (get_of_ne_nil hcopy))
    have hpointers : x.pointers = (x.copy owner).pointers := by
      rw [← harray, ← x.takeWhile_pointers (rest ++ (x.copy owner).pointers ++ [none])]
      simp [copy, hrest]
    have hfirst := getElem?_pointers hx
    rw [hpointers, getElem?_pointers hcopy] at hfirst
    have howners : some (some (StringPtr.mk owner 0)) = some (some ⟨x.owner, 0⟩) := hfirst
    cases howners
    exact howner rfl

end AcceptTypes

/-- The objects in scope by their names, and the first identity that no strings
have had. -/
structure Objects where
  object : Nat → Option AcceptTypes := fun _ => none
  next : Nat := 0

inductive ObjectAction where
  | construct (i : Nat) (strings : List WString)
  | get (i : Nat)
  | copyConstruct (i source : Nat)
  | copyAssign (i source : Nat)
  | moveConstruct (i source : Nat)
  | moveAssign (i source : Nat)
  | destroy (i : Nat)
  deriving DecidableEq, Repr

namespace Objects

/-- Put an object with strings of its own under a name. -/
def store (s : Objects) (i : Nat) (x : Nat → AcceptTypes) : Objects :=
  { object := Function.update s.object i (some (x s.next)), next := s.next + 1 }

/-- Hand the strings of an object over, with the pointers to them. -/
def transfer (s : Objects) (i source : Nat) (x : AcceptTypes) : Objects :=
  { object := Function.update
      (Function.update s.object source (some (AcceptTypes.movedFrom s.next))) i (some x)
    next := s.next + 1 }

def put (s : Objects) (i : Nat) (x : Option AcceptTypes) : Objects :=
  { s with object := Function.update s.object i x }

def step (s : Objects) : ObjectAction → Option Objects
  | .construct i strings =>
      match s.object i with
      | none => some (s.store i fun owner => { owner, data := strings })
      | some _ => none
  | .get i => (s.object i).map fun x => s.put i (some x.get.1)
  | .copyConstruct i source =>
      match s.object i, s.object source with
      | none, some x => some (s.store i x.copy)
      | _, _ => none
  | .copyAssign i source =>
      match s.object i, s.object source with
      | some _, some x => some (if i = source then s else s.store i x.copy)
      | _, _ => none
  | .moveConstruct i source =>
      match s.object i, s.object source with
      | none, some x => some (s.transfer i source x)
      | _, _ => none
  | .moveAssign i source =>
      match s.object i, s.object source with
      | some _, some x => some (if i = source then s else s.transfer i source x)
      | _, _ => none
  | .destroy i => (s.object i).map fun _ => s.put i none

def system : System Objects ObjectAction := ⟨step⟩

/-- Every object describes itself, and no two objects own the same strings. -/
structure Sound (s : Objects) : Prop where
  describes : ∀ i x, s.object i = some x → x.Describes
  distinct : ∀ i j x y, s.object i = some x → s.object j = some y → x.owner = y.owner → i = j

/-- No copy is taken of an object that has handed out pointers. -/
def Uncopied (s : Objects) : ObjectAction → Prop
  | .copyConstruct _ source => ∀ x, s.object source = some x → x.output = []
  | .copyAssign i source => i ≠ source → ∀ x, s.object source = some x → x.output = []
  | _ => True

/-- What an action can do to the objects. -/
inductive Effect (s : Objects) : ObjectAction → Objects → Prop
  | construct (i : Nat) (strings : List WString) :
      Effect s (.construct i strings) (s.store i fun owner => { owner, data := strings })
  | get {i : Nat} {x : AcceptTypes} (hx : s.object i = some x) :
      Effect s (.get i) (s.put i (some x.get.1))
  | copy {a : ObjectAction} {i source : Nat} {x : AcceptTypes} (hx : s.object source = some x)
      (ha : Uncopied s a ↔ x.output = []) : Effect s a (s.store i x.copy)
  | move {a : ObjectAction} {i source : Nat} {x : AcceptTypes} (hx : s.object source = some x)
      (hne : i ≠ source) (ha : Uncopied s a) : Effect s a (s.transfer i source x)
  | destroy (i : Nat) : Effect s (.destroy i) (s.put i none)
  | self {a : ObjectAction} (ha : Uncopied s a) : Effect s a s

theorem effect_of_step {s s' : Objects} {a : ObjectAction} (h : s.step a = some s') :
    Effect s a s' := by
  cases a with
  | construct i strings =>
      rw [step] at h
      split at h
      · cases h
        exact .construct i strings
      · cases h
  | get i =>
      obtain ⟨x, hx, hs'⟩ := Option.map_eq_some_iff.mp h
      cases hs'
      exact .get hx
  | copyConstruct i source =>
      rw [step] at h
      split at h
      · next x _ hx =>
          cases h
          exact .copy hx (by simp [Uncopied, hx])
      · cases h
  | copyAssign i source =>
      rw [step] at h
      split at h
      · next x _ hx =>
          cases h
          split
          · next hi => exact .self (by simp [Uncopied, hi])
          · next hi => exact .copy hx (by simp [Uncopied, hi, hx])
      · cases h
  | moveConstruct i source =>
      rw [step] at h
      split at h
      · next x hi hx =>
          cases h
          have hne : i ≠ source := by
            rintro rfl
            simp [hx] at hi
          exact .move hx hne trivial
      · cases h
  | moveAssign i source =>
      rw [step] at h
      split at h
      · next x _ hx =>
          cases h
          split
          · exact .self trivial
          · next hi => exact .move hx hi trivial
      · cases h
  | destroy i =>
      obtain ⟨x, -, hs'⟩ := Option.map_eq_some_iff.mp h
      cases hs'
      exact .destroy i

/-- All strings have an identity of their own. -/
structure Owned (s : Objects) : Prop where
  lt : ∀ i x, s.object i = some x → x.owner < s.next
  distinct : ∀ i j x y, s.object i = some x → s.object j = some y → x.owner = y.owner → i = j

/-- Strings are new, or an object has the strings that some object had. -/
theorem Owned.of_origin {s s' : Objects} (h : s.Owned) (hnext : s.next ≤ s'.next)
    {origin : Nat → Nat} (horigin : Function.Injective origin) {i : Nat}
    (hs' : ∀ j y, s'.object j = some y →
      (j = i ∧ y.owner = s.next ∧ s.next < s'.next) ∨
        ∃ x, s.object (origin j) = some x ∧ x.owner = y.owner) : s'.Owned := by
  constructor
  · intro j y hy
    rcases hs' j y hy with ⟨-, howner, hlt⟩ | ⟨x, hx, howner⟩
    · exact howner ▸ hlt
    · exact howner ▸ Nat.lt_of_lt_of_le (h.lt _ x hx) hnext
  · intro j k y z hy hz hyz
    rcases hs' j y hy with ⟨rfl, hynext, -⟩ | ⟨x, hx, hxy⟩ <;>
      rcases hs' k z hz with ⟨rfl, hznext, -⟩ | ⟨w, hw, hwz⟩
    · rfl
    · have := h.lt _ w hw
      omega
    · have := h.lt _ x hx
      omega
    · exact horigin (h.distinct _ _ x w hx hw (hxy.trans (hyz.trans hwz.symm)))

theorem Owned.store {s : Objects} (h : s.Owned) (i : Nat) {x : Nat → AcceptTypes}
    (hx : ∀ n, (x n).owner = n) : (s.store i x).Owned := by
  refine h.of_origin (Nat.le_succ s.next) Function.injective_id (i := i) fun j y hy => ?_
  simp only [Objects.store, Function.update_apply] at hy
  split at hy
  · next hj =>
      cases hy
      exact .inl ⟨hj, hx s.next, Nat.lt_succ_self s.next⟩
  · exact .inr ⟨y, hy, rfl⟩

theorem Owned.put {s : Objects} (h : s.Owned) (i : Nat) {x : Option AcceptTypes}
    (hx : ∀ y, x = some y → ∃ z, s.object i = some z ∧ z.owner = y.owner) :
    (s.put i x).Owned := by
  refine h.of_origin (Nat.le_refl s.next) Function.injective_id (i := i) fun j y hy => ?_
  simp only [Objects.put, Function.update_apply] at hy
  split at hy
  · next hj =>
      obtain ⟨z, hz, howner⟩ := hx y hy
      exact .inr ⟨z, hj ▸ hz, howner⟩
  · exact .inr ⟨y, hy, rfl⟩

theorem Owned.transfer {s : Objects} (h : s.Owned) {i source : Nat} {x : AcceptTypes}
    (hx : s.object source = some x) : (s.transfer i source x).Owned := by
  refine h.of_origin (Nat.le_succ s.next) (Equiv.swap i source).injective (i := source)
    fun j y hy => ?_
  simp only [Objects.transfer, Function.update_apply] at hy
  split at hy
  · next hj =>
      cases hy
      exact .inr ⟨x, by rw [hj, Equiv.swap_apply_left, hx], rfl⟩
  · next hj =>
      split at hy
      · next hsource =>
          cases hy
          exact .inl ⟨hsource, rfl, Nat.lt_succ_self s.next⟩
      · next hsource =>
          exact .inr ⟨y, by rw [Equiv.swap_apply_of_ne_of_ne hj hsource, hy], rfl⟩

theorem Effect.owned {s s' : Objects} {a : ObjectAction} (h : Effect s a s') (hs : s.Owned) :
    s'.Owned := by
  cases h with
  | construct i strings => exact hs.store i fun n => rfl
  | get hx =>
      refine hs.put _ fun y hy => ⟨_, hx, ?_⟩
      cases hy
      exact (AcceptTypes.owner_get _).symm
  | copy hx ha => exact hs.store _ fun n => rfl
  | move hx hne ha => exact hs.transfer hx
  | destroy i => exact hs.put i fun y hy => by cases hy
  | self ha => exact hs

/-- The strings are told apart, and every object is current. -/
structure Tracked (s : Objects) : Prop where
  owned : s.Owned
  current : ∀ i x, s.object i = some x → x.Current

theorem Tracked.sound {s : Objects} (h : s.Tracked) : s.Sound :=
  ⟨fun i x hx => (h.current i x hx).describes, h.owned.distinct⟩

theorem forall_update {P : AcceptTypes → Prop} {object : Nat → Option AcceptTypes}
    (h : ∀ j y, object j = some y → P y) {i : Nat} {x : Option AcceptTypes}
    (hx : ∀ y, x = some y → P y) {j : Nat} {y : AcceptTypes}
    (hy : Function.update object i x j = some y) : P y := by
  rw [Function.update_apply] at hy
  split at hy
  · exact hx y hy
  · exact h j y hy

theorem Effect.tracked {s s' : Objects} {a : ObjectAction} (h : Effect s a s')
    (hs : s.Tracked) (ha : Uncopied s a) : s'.Tracked := by
  refine ⟨h.owned hs.owned, fun j y hy => ?_⟩
  cases h with
  | construct i strings =>
      refine forall_update hs.current ?_ hy
      rintro _ ⟨⟩
      exact .inl rfl
  | get hx =>
      refine forall_update hs.current ?_ hy
      rintro _ ⟨⟩
      exact (hs.current _ _ hx).get
  | copy hx hcopy =>
      refine forall_update hs.current ?_ hy
      rintro _ ⟨⟩
      exact .inl (hcopy.mp ha)
  | move hx hne _ =>
      refine forall_update (fun _ _ => forall_update hs.current ?_) ?_ hy
      · rintro _ ⟨⟩
        exact .inl rfl
      · rintro _ ⟨⟩
        exact hs.current _ _ hx
  | destroy i =>
      refine forall_update hs.current ?_ hy
      rintro _ ⟨⟩
  | self _ => exact hs.current j y hy

theorem Effect.uncopied {s s' : Objects} {a : ObjectAction} (h : Effect s a s')
    (hs : s.Tracked) (hs' : s'.Sound) : Uncopied s a := by
  cases h with
  | construct i strings => trivial
  | get hx => trivial
  | @copy _ i source x hx hcopy =>
      by_contra ha
      have houtput : x.output ≠ [] := fun h => ha (hcopy.mpr h)
      have howner : x.owner ≠ s.next := Nat.ne_of_lt (hs.owned.lt source x hx)
      apply AcceptTypes.not_describes_copy (hs.current source x hx) houtput howner
      exact hs'.describes i _ (Function.update_self ..)
  | move hx hne ha => exact ha
  | destroy i => trivial
  | self ha => exact ha

theorem tracked_init : ({} : Objects).Tracked := by
  refine ⟨⟨?_, ?_⟩, ?_⟩
  · intro i x hx
    cases hx
  · intro i j x y hx
    cases hx
  · intro i x hx
    cases hx

/-- All objects describe themselves in every state exactly if no object is
copied, by construction or by assignment, that has handed out pointers. -/
theorem sound_iff_uncopied (actions : List ObjectAction) :
    system.AllStates Sound {} actions ↔ system.AllSteps Uncopied {} actions := by
  apply System.allStates_iff_allSteps_of_stronger (Q := Tracked) _ _ _ tracked_init
  · exact fun s hs => hs.sound
  · exact fun s a s' hs ha h => (effect_of_step h).tracked hs ha
  · exact fun s a s' hs h hs' => (effect_of_step h).uncopied hs hs'

/-- The copy of an object after `get` points to the strings of the object. -/
theorem not_sound_copy_after_get :
    ¬ system.AllStates Sound {} [.construct 0 [[97]], .get 0, .copyConstruct 1 0] := by
  intro h
  obtain ⟨-, hget⟩ := (h.last rfl).describes 1 _ rfl
  exact absurd (hget _ rfl) (by decide)

end Objects

end Winasio.ClientPayload
