import Winasio.Basic
import Winasio.Transition

/-!
`basic_winhttp_handle` and the handles of sessions and connections: which
object closes which `HINTERNET`.
-/

namespace Winasio.WinhttpHandle

open Winasio.Transition

/-- A handle is its number in the order in which WinHTTP has returned them. -/
abbrev HINTERNET : Type := Nat

inductive Kind where
  | handle
  | session
  | connect
  deriving DecidableEq, Repr

structure Object where
  kind : Kind
  handle : Option HINTERNET := none
  deriving DecidableEq, Repr

namespace Object

/-- An object, and the handles that were passed to `WinHttpCloseHandle`. -/
def close (o : Object) (closed : List HINTERNET) : Object × List HINTERNET :=
  ({ o with handle := none }, closed ++ o.handle.toList)

def assign (o : Object) (handle : HINTERNET) (closed : List HINTERNET) :
    Object × List HINTERNET :=
  let (o, closed) := if o.handle ≠ none then o.close closed else (o, closed)
  ({ o with handle := some handle }, closed)

/-- `open` of a session: what `WinHttpOpen` returns is assigned, and after a failure
the error is in `ec`. -/
def openSession (o : Object) (hSession : Except Failure HINTERNET) (ec : ErrorCode)
    (closed : List HINTERNET) : ErrorCode × Object × List HINTERNET :=
  match hSession with
  | .error failure => (failure.val, o, closed)
  | .ok handle => (ec, o.assign handle closed)

/-- `connect` does the same with what `WinHttpConnect` returns. -/
def connect (o : Object) (hConnect : Except Failure HINTERNET) (ec : ErrorCode)
    (closed : List HINTERNET) : ErrorCode × Object × List HINTERNET :=
  o.openSession hConnect ec closed

end Object

/-- The objects by the order of their construction, those that are destroyed as
`none`; how many handles WinHTTP has returned, and those that were closed. -/
structure State where
  objects : List (Option Object) := []
  obtained : Nat := 0
  closed : List HINTERNET := []
  deriving DecidableEq, Repr

/-- The destructor that closes the handle suppresses the moves: a construction or
assignment from an rvalue copies. Objects are copied to their own kind or to the
base; through a reference to the base, any object is assigned to any other. -/
inductive Label where
  | construct (kind : Kind)
  | openSession (self : Nat) (error : Option Failure) (ec : ErrorCode)
  | connect (self : Nat) (error : Option Failure) (ec : ErrorCode)
  | assign (self : Nat)
  | close (self : Nat)
  | copyConstruct (kind : Kind) (other : Nat)
  | copyAssign (self other : Nat)
  | destroy (self : Nat)

namespace State

def object (s : State) (self : Nat) : Option Object := s.objects[self]?.join

def handle (s : State) (self : Nat) : Option HINTERNET := (s.object self).bind Object.handle

def update (s : State) (self : Nat) (result : Object × List HINTERNET) : State :=
  { s with objects := s.objects.set self (some result.1), closed := result.2 }

/-- WinHTTP returns a new handle or fails. -/
def obtain (s : State) : Option Failure → Except Failure HINTERNET × State
  | none => (.ok s.obtained, { s with obtained := s.obtained + 1 })
  | some failure => (.error failure, s)

end State

def step (s : State) : Label → Option State
  | .construct kind => some { s with objects := s.objects.concat (some { kind }) }
  | .openSession self error ec =>
      (s.object self).bind fun o =>
        if o.kind = .session then
          let (hSession, s) := s.obtain error
          some (s.update self (o.openSession hSession ec s.closed).2)
        else none
  | .connect self error ec =>
      (s.object self).bind fun o =>
        if o.kind = .connect then
          let (hConnect, s) := s.obtain error
          some (s.update self (o.connect hConnect ec s.closed).2)
        else none
  | .assign self =>
      (s.object self).map fun o =>
        { s with obtained := s.obtained + 1 }.update self (o.assign s.obtained s.closed)
  | .close self => (s.object self).map fun o => s.update self (o.close s.closed)
  | .copyConstruct kind other =>
      (s.object other).bind fun o =>
        if o.kind = kind ∨ kind = .handle then
          some { s with objects := s.objects.concat (some { o with kind }) }
        else none
  | .copyAssign self other =>
      (s.object self).bind fun o =>
        (s.object other).map fun o' => s.update self ({ o with handle := o'.handle }, s.closed)
  | .destroy self =>
      (s.object self).map fun o =>
        { s with objects := s.objects.set self none, closed := (o.close s.closed).2 }

def system : System State Label := ⟨step⟩

def holds (h : HINTERNET) (o : Option Object) : Bool := o.bind Object.handle = some h

def holders (s : State) (h : HINTERNET) : Nat := s.objects.countP (holds h)

/-- Every handle that is not closed is held by one object, none that is closed is
held, and in the end each was closed once. -/
structure ClosedOnce (s : State) : Prop where
  held : ∀ h, h < s.obtained → h ∉ s.closed → holders s h = 1
  valid : ∀ h, 0 < holders s h → h ∉ s.closed
  settled : (∀ o ∈ s.objects, o = none) → ∀ h, h < s.obtained → s.closed.count h = 1

/-- An `open` or `connect` that fails leaves the handle of its object in place. -/
def KeepsHandle (s : State) (l : Label) : Prop :=
  match l with
  | .openSession self (some _) _ | .connect self (some _) _ =>
      ∀ s', step s l = some s' → s'.handle self = s.handle self
  | _ => True

/-- Nothing is copied from or to an object that has a handle, unless it is
assigned to itself. -/
def Exclusive (s : State) : Label → Prop
  | .copyConstruct _ other => s.handle other = none
  | .copyAssign self other => self = other ∨ s.handle self = none ∧ s.handle other = none
  | _ => True

/-- Every handle that was obtained is closed once or held once. -/
def Accounted (s : State) : Prop :=
  ∀ h, s.closed.count h + holders s h = if h < s.obtained then 1 else 0

@[simp] theorem assign_eq (o : Object) (handle : HINTERNET) (closed : List HINTERNET) :
    o.assign handle closed = ({ o with handle := some handle }, closed ++ o.handle.toList) := by
  rcases o with ⟨kind, _ | old⟩
  · simp [Object.assign]
  · rfl

theorem objects_of_object {s : State} {self : Nat} {o : Object} (h : s.object self = some o) :
    s.objects[self]? = some (some o) :=
  Option.join_eq_some_iff.mp h

theorem handle_of_object {s : State} {self : Nat} {o : Object} (h : s.object self = some o) :
    s.handle self = o.handle := by
  rw [State.handle, h]
  rfl

def assigned (s : State) (self : Nat) (o : Object) : State where
  objects := s.objects.set self (some { o with handle := some s.obtained })
  obtained := s.obtained + 1
  closed := s.closed ++ o.handle.toList

inductive Stepped (s : State) : Label → State → Prop
  | constructed (kind : Kind) :
      Stepped s (.construct kind) { s with objects := s.objects.concat (some { kind }) }
  | openFailed (self : Nat) (failure : Failure) (ec : ErrorCode) (o : Object)
      (ho : s.object self = some o) :
      Stepped s (.openSession self (some failure) ec)
        { s with objects := s.objects.set self (some o) }
  | connectFailed (self : Nat) (failure : Failure) (ec : ErrorCode) (o : Object)
      (ho : s.object self = some o) :
      Stepped s (.connect self (some failure) ec)
        { s with objects := s.objects.set self (some o) }
  | opened (self : Nat) (ec : ErrorCode) (o : Object) (ho : s.object self = some o) :
      Stepped s (.openSession self none ec) (assigned s self o)
  | connected (self : Nat) (ec : ErrorCode) (o : Object) (ho : s.object self = some o) :
      Stepped s (.connect self none ec) (assigned s self o)
  | assigned (self : Nat) (o : Object) (ho : s.object self = some o) :
      Stepped s (.assign self) (assigned s self o)
  | closed (self : Nat) (o : Object) (ho : s.object self = some o) :
      Stepped s (.close self)
        { s with
          objects := s.objects.set self (some { o with handle := none })
          closed := s.closed ++ o.handle.toList }
  | copied (kind : Kind) (other : Nat) (o : Object) (ho : s.object other = some o) :
      Stepped s (.copyConstruct kind other)
        { s with objects := s.objects.concat (some { o with kind }) }
  | copyAssigned (self other : Nat) (o o' : Object) (ho : s.object self = some o)
      (ho' : s.object other = some o') :
      Stepped s (.copyAssign self other)
        { s with objects := s.objects.set self (some { o with handle := o'.handle }) }
  | destroyed (self : Nat) (o : Object) (ho : s.object self = some o) :
      Stepped s (.destroy self)
        { s with
          objects := s.objects.set self none
          closed := s.closed ++ o.handle.toList }

theorem stepped_of_step {s s' : State} {l : Label} (h : step s l = some s') : Stepped s l s' := by
  cases l with
  | construct kind =>
      cases h
      exact .constructed kind
  | openSession self error ec =>
      obtain ⟨o, ho, hkind⟩ := Option.bind_eq_some_iff.mp h
      obtain ⟨-, hs'⟩ := Option.ite_none_right_eq_some.mp hkind
      cases error with
      | some failure =>
          cases hs'
          exact .openFailed self failure ec o ho
      | none =>
          simp only [State.obtain, Object.openSession, assign_eq, Option.some.injEq] at hs'
          subst hs'
          exact .opened self ec o ho
  | connect self error ec =>
      obtain ⟨o, ho, hkind⟩ := Option.bind_eq_some_iff.mp h
      obtain ⟨-, hs'⟩ := Option.ite_none_right_eq_some.mp hkind
      cases error with
      | some failure =>
          cases hs'
          exact .connectFailed self failure ec o ho
      | none =>
          simp only [State.obtain, Object.connect, Object.openSession, assign_eq,
            Option.some.injEq] at hs'
          subst hs'
          exact .connected self ec o ho
  | assign self =>
      obtain ⟨o, ho, rfl⟩ := Option.map_eq_some_iff.mp h
      rw [assign_eq]
      exact .assigned self o ho
  | close self =>
      obtain ⟨o, ho, rfl⟩ := Option.map_eq_some_iff.mp h
      exact .closed self o ho
  | copyConstruct kind other =>
      obtain ⟨o, ho, hkind⟩ := Option.bind_eq_some_iff.mp h
      obtain ⟨-, hs'⟩ := Option.ite_none_right_eq_some.mp hkind
      cases hs'
      exact .copied kind other o ho
  | copyAssign self other =>
      obtain ⟨o, ho, hassign⟩ := Option.bind_eq_some_iff.mp h
      obtain ⟨o', ho', rfl⟩ := Option.map_eq_some_iff.mp hassign
      exact .copyAssigned self other o o' ho ho'
  | destroy self =>
      obtain ⟨o, ho, rfl⟩ := Option.map_eq_some_iff.mp h
      exact .destroyed self o ho

theorem count_closed (closed : List HINTERNET) (o : Object) (h : HINTERNET) :
    (closed ++ o.handle.toList).count h = closed.count h + if holds h (some o) then 1 else 0 := by
  rcases o with ⟨kind, _ | handle⟩
  · simp [holds]
  · simp [holds, List.count_singleton]

theorem holders_set {s : State} {self : Nat} {o : Option Object} (ho : s.objects[self]? = some o)
    (o' : Option Object) (h : HINTERNET) :
    (s.objects.set self o').countP (holds h) + (if holds h o then 1 else 0) =
      holders s h + if holds h o' then 1 else 0 := by
  obtain ⟨hlt, rfl⟩ := List.getElem?_eq_some_iff.mp ho
  have hle := List.boole_getElem_le_countP (p := holds h) hlt
  rw [List.countP_set hlt, holders]
  omega

theorem holders_concat (s : State) (o : Option Object) (h : HINTERNET) :
    (s.objects.concat o).countP (holds h) = holders s h + if holds h o then 1 else 0 := by
  rw [List.concat_eq_append, List.countP_append, List.countP_singleton, holders]

namespace Accounted

theorem set {s t : State} (hs : Accounted s) {self : Nat} {o o' : Option Object}
    (ho : s.objects[self]? = some o) (hobjects : t.objects = s.objects.set self o')
    (hledger : ∀ h, t.closed.count h + (if holds h o' then 1 else 0) +
        (if h < s.obtained then 1 else 0) =
      s.closed.count h + (if holds h o then 1 else 0) + if h < t.obtained then 1 else 0) :
    Accounted t := by
  intro h
  have hbefore := hs h
  have hset := holders_set ho o' h
  have hstep := hledger h
  rw [holders, hobjects]
  omega

theorem concat {s : State} (hs : Accounted s) {o : Object} (ho : o.handle = none) :
    Accounted { s with objects := s.objects.concat (some o) } := by
  intro h
  have hnone : holds h (some o) = false := by simp [holds, ho]
  have hconcat := holders_concat s (some o) h
  rw [hnone] at hconcat
  exact (congrArg _ hconcat).trans (hs h)

theorem assigned {s : State} (hs : Accounted s) {self : Nat} {o : Object}
    (ho : s.object self = some o) : Accounted (assigned s self o) := by
  apply hs.set (objects_of_object ho) rfl
  intro h
  have hnew : (if h < s.obtained + 1 then 1 else 0) =
      (if holds h (some { o with handle := some s.obtained }) then 1 else 0) +
        if h < s.obtained then 1 else 0 := by
    rcases Nat.lt_trichotomy h s.obtained with hlt | rfl | hlt
    · simp [holds, hlt, Nat.lt_succ_of_lt hlt, Nat.ne_of_gt hlt]
    · simp [holds]
    · simp [holds, Nat.not_lt_of_gt hlt, Nat.not_lt_of_ge hlt, Nat.ne_of_lt hlt]
  change (s.closed ++ o.handle.toList).count h + _ + _ = _ + _ + if h < s.obtained + 1 then 1 else 0
  rw [count_closed, hnew]
  omega

theorem step {s s' : State} {l : Label} (hs : Accounted s) (hl : Exclusive s l)
    (h : Stepped s l s') : Accounted s' := by
  cases h with
  | constructed kind => exact hs.concat rfl
  | openFailed self failure ec o ho | connectFailed self failure ec o ho =>
      exact hs.set (objects_of_object ho) rfl fun h => rfl
  | opened self ec o ho | connected self ec o ho | assigned self o ho => exact hs.assigned ho
  | closed self o ho | destroyed self o ho =>
      apply hs.set (objects_of_object ho) rfl
      intro h
      rw [count_closed]
      rfl
  | copied kind other o ho => exact hs.concat ((handle_of_object ho).symm.trans hl)
  | copyAssigned self other o o' ho ho' =>
      have hhandle : o'.handle = o.handle := by
        rcases hl with rfl | ⟨hself, hother⟩
        · rw [Option.some.inj (ho'.symm.trans ho)]
        · rw [← handle_of_object ho, ← handle_of_object ho', hself, hother]
      rw [hhandle]
      exact hs.set (objects_of_object ho) rfl fun h => rfl

theorem holders_le {s : State} (hs : Accounted s) (h : HINTERNET) : holders s h ≤ 1 := by
  have hledger := hs h
  split at hledger <;> omega

theorem closedOnce {s : State} (hs : Accounted s) : ClosedOnce s := by
  constructor
  · intro h hlt hclosed
    have hledger := hs h
    rw [if_pos hlt, List.count_eq_zero_of_not_mem hclosed, Nat.zero_add] at hledger
    exact hledger
  · intro h hpos hclosed
    have hledger := hs h
    have hcount := List.count_pos_iff.mpr hclosed
    split at hledger <;> omega
  · intro hobjects h hlt
    have hnone : holders s h = 0 := by
      apply List.countP_eq_zero.mpr
      intro o ho
      rw [hobjects o ho]
      exact Bool.false_ne_true
    have hledger := hs h
    rw [if_pos hlt, hnone] at hledger
    exact hledger

theorem live {s : State} (hs : Accounted s) {self : Nat} {o : Object} {h : HINTERNET}
    (ho : s.object self = some o) (hhandle : o.handle = some h) :
    h < s.obtained ∧ h ∉ s.closed := by
  have hpos : 0 < holders s h := by
    apply List.countP_pos_iff.mpr
    exact ⟨some o, List.mem_of_getElem? (objects_of_object ho), by simp [holds, hhandle]⟩
  have hledger := hs h
  refine ⟨?_, hs.closedOnce.valid h hpos⟩
  by_contra hlt
  rw [if_neg hlt] at hledger
  omega

/-- A step that obtains and closes nothing must not change how many objects have a
handle. -/
theorem holders_eq {s t : State} (hs : Accounted s) (hnext : ClosedOnce t)
    (hobtained : t.obtained = s.obtained) (hclosed : t.closed = s.closed) {self : Nat}
    {o : Object} {h : HINTERNET} (ho : s.object self = some o) (hhandle : o.handle = some h) :
    holders t h = holders s h := by
  obtain ⟨hlt, hopen⟩ := hs.live ho hhandle
  rw [hs.closedOnce.held h hlt hopen]
  exact hnext.held h (hobtained ▸ hlt) (hclosed ▸ hopen)

theorem unshared {s : State} (hs : Accounted s) {self other : Nat} {o o' : Object}
    (ho : s.object self = some o) (ho' : s.object other = some o') (hne : self ≠ other)
    {h : HINTERNET} (hhandle : o.handle = some h) : o'.handle ≠ some h := by
  intro hhandle'
  have hbalance := holders_set (objects_of_object ho) none h
  have hother : (s.objects.set self none)[other]? = some (some o') := by
    rw [List.getElem?_set_ne hne]
    exact objects_of_object ho'
  have hpos : 0 < (s.objects.set self none).countP (holds h) := by
    apply List.countP_pos_iff.mpr
    exact ⟨some o', List.mem_of_getElem? hother, by simp [holds, hhandle']⟩
  have hle := hs.holders_le h
  simp only [holds, Option.bind_some, hhandle, Option.bind_none, reduceCtorEq, decide_true,
    decide_false, if_true, Bool.false_eq_true, if_false] at hbalance
  omega

end Accounted

theorem accounted_start : Accounted {} := by
  intro h
  rfl

section Copied

variable {s : State} {self other : Nat} {o o' : Object} {h : HINTERNET}

theorem not_closedOnce_copied (hs : Accounted s) (kind : Kind) (ho : s.object other = some o)
    (hhandle : o.handle = some h) :
    ¬ ClosedOnce { s with objects := s.objects.concat (some { o with kind }) } := by
  intro hnext
  have hmore := holders_concat s (some { o with kind }) h
  have hsame : List.countP (holds h) _ = holders s h := hs.holders_eq hnext rfl rfl ho hhandle
  rw [hsame] at hmore
  simp [holds, hhandle] at hmore

/-- The handle that was there is lost, or two objects have the other one. -/
theorem not_closedOnce_copyAssigned (hs : Accounted s) (ho : s.object self = some o)
    (ho' : s.object other = some o') (hne : o.handle ≠ o'.handle) :
    ¬ ClosedOnce { s with objects := s.objects.set self (some { o with handle := o'.handle }) } := by
  intro hnext
  have hbalance := holders_set (objects_of_object ho) (some { o with handle := o'.handle })
  cases hlost : o.handle with
  | some lost =>
      have hsame : List.countP (holds lost) _ = holders s lost :=
        hs.holders_eq hnext rfl rfl ho hlost
      have hother : o'.handle ≠ some lost := fun h => hne (hlost.trans h.symm)
      specialize hbalance lost
      rw [hsame] at hbalance
      simp [holds, hlost, hother] at hbalance
  | none =>
      obtain ⟨gained, hgained⟩ := Option.ne_none_iff_exists'.mp (hlost ▸ hne.symm)
      have hsame : List.countP (holds gained) _ = holders s gained :=
        hs.holders_eq hnext rfl rfl ho' hgained
      specialize hbalance gained
      rw [hsame] at hbalance
      simp [holds, hlost, hgained] at hbalance

end Copied

theorem exclusive_of_closedOnce {s s' : State} {l : Label} (hs : Accounted s)
    (h : Stepped s l s') (hnext : ClosedOnce s') : Exclusive s l := by
  cases h with
  | copied kind other o ho =>
      cases hhandle : o.handle with
      | none => exact (handle_of_object ho).trans hhandle
      | some h => exact absurd hnext (not_closedOnce_copied hs kind ho hhandle)
  | copyAssigned self other o o' ho ho' =>
      rcases Decidable.em (self = other) with heq | hne
      · exact .inl heq
      · have hsame : o.handle = o'.handle := by
          by_contra hdiff
          exact not_closedOnce_copyAssigned hs ho ho' hdiff hnext
        right
        rw [handle_of_object ho, handle_of_object ho', ← hsame]
        cases hhandle : o.handle with
        | none => exact ⟨rfl, rfl⟩
        | some h => exact absurd (hsame.symm.trans hhandle) (hs.unshared ho ho' hne hhandle)
  | constructed | openFailed | connectFailed | opened | connected | assigned | closed |
    destroyed => trivial

theorem keepsHandle (s : State) (l : Label) : KeepsHandle s l := by
  have hkept {self : Nat} {o : Object} (ho : s.object self = some o) :
      { s with objects := s.objects.set self (some o) }.handle self = s.handle self := by
    have hlt := (List.getElem?_eq_some_iff.mp (objects_of_object ho)).1
    rw [handle_of_object ho, State.handle, State.object, List.getElem?_set_self hlt]
    rfl
  cases l with
  | openSession self error ec =>
      cases error with
      | none => trivial
      | some failure =>
          intro s' h
          cases stepped_of_step h with
          | openFailed _ _ _ o ho => exact hkept ho
  | connect self error ec =>
      cases error with
      | none => trivial
      | some failure =>
          intro s' h
          cases stepped_of_step h with
          | connectFailed _ _ _ o ho => exact hkept ho
  | construct | assign | close | copyConstruct | copyAssign | destroy => trivial

/-- Every handle is closed exactly once just as long as nothing is copied from or
to an object that has one. -/
theorem closedOnce_iff_exclusive (labels : List Label) :
    system.AllStates ClosedOnce {} labels ∧ system.AllSteps KeepsHandle {} labels ↔
      system.AllSteps Exclusive {} labels := by
  have hiff : system.AllStates ClosedOnce {} labels ↔ system.AllSteps Exclusive {} labels := by
    apply System.allStates_iff_allSteps_of_stronger (Q := Accounted)
      (fun s hs => hs.closedOnce) _ _ accounted_start
    · intro s l s' hs hl h
      exact hs.step hl (stepped_of_step h)
    · intro s l s' hs h hnext
      exact exclusive_of_closedOnce hs (stepped_of_step h) hnext
  exact ⟨fun h => hiff.mp h.1, fun h => ⟨hiff.mpr h, .of_forall keepsHandle {} labels⟩⟩

/-- A session is opened and copied, and both objects are destroyed. -/
theorem not_closedOnce_copy :
    ¬ ∀ labels, system.AllStates ClosedOnce {} labels ∧ system.AllSteps KeepsHandle {} labels := by
  intro h
  have hstates := (h [.construct .session, .openSession 0 none {}, .copyConstruct .session 0,
    .destroy 1, .destroy 0]).1
  have hlast : ClosedOnce ⟨[none, none], 1, [0, 0]⟩ := hstates.last rfl
  exact absurd (hlast.settled (by decide) 0 (by decide)) (by decide)

end Winasio.WinhttpHandle
