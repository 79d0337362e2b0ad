import Winasio.EraseFirst
import Winasio.NamedPipe
import Winasio.Transition

/-!
`async_accept(token)` of `named_pipe_acceptor`: all accepts that are outstanding
share the member `pipe_` of the acceptor.
-/

namespace Winasio.PipeAcceptor

open Winasio.Transition
open Winasio.EraseFirst
open Winasio.NamedPipe

/-- An accept whose handler has not run: the handle that was created for it, and
the error code if the completion is posted. -/
structure Accept where
  id : Nat
  own : Handle
  posted : Option ErrorCode
  deriving DecidableEq, Repr

/-- What a handler was invoked with: the error code and the pipe; `own` is the
handle created for its accept. -/
structure Report where
  id : Nat
  own : Option Handle
  ec : ErrorCode
  pipe : Option Handle
  deriving DecidableEq, Repr

structure State where
  handles : Handles := []
  pipe : Option Handle := none
  waiting : List Accept := []
  accepts : Nat := 0
  reported : List Report := []
  threw : Bool := false
  deriving DecidableEq, Repr

namespace State

/-- The handler is given the pipe of the acceptor, which is closed then. -/
def handler (s : State) (id : Nat) (own : Option Handle) (ec : ErrorCode) : State :=
  { s with reported := s.reported ++ [⟨id, own, ec, s.pipe⟩], pipe := none }

def asyncAccept (s : State) (error : Option Failure) (fConnected : Bool) (lastError : UInt32) :
    State :=
  let id := s.accepts
  let s := { s with accepts := id + 1 }
  match serverCreate s.handles s.pipe error with
  | .failed f => s.handler id none f.val
  | .threw handles => { s with handles, threw := true }
  | .assigned handles hPipe =>
      { s with
        handles
        pipe := some hPipe
        waiting := s.waiting ++ [⟨id, hPipe, posted (asyncServerConnect fConnected lastError)⟩] }

end State

inductive Label where
  | accept (error : Option Failure) (fConnected : Bool) (lastError : UInt32)
  | complete (id : Nat) (error : Option Failure)
  | run (id : Nat)

def step (s : State) : Label → Option State
  | .accept error fConnected lastError => some (s.asyncAccept error fConnected lastError)
  | .complete id error =>
      match s.waiting.find? (·.id = id) with
      | some ⟨_, own, none⟩ =>
          some { s with
            waiting := s.waiting.eraseP (·.id = id) ++ [⟨id, own, some (completion error)⟩] }
      | _ => none
  | .run id =>
      match s.waiting.find? (·.id = id) with
      | some ⟨_, own, some ec⟩ =>
          some ({ s with waiting := s.waiting.eraseP (·.id = id) }.handler id (some own) ec)
      | _ => none

def system : System State Label := ⟨step⟩

def start : State := {}

def ids (s : State) : List Nat := s.waiting.map Accept.id ++ s.reported.map Report.id

/-- The handles in the pipe of the acceptor and in those the handlers got. -/
def held (s : State) : List Handle := s.pipe.toList ++ s.reported.filterMap Report.pipe

structure Sound (s : State) : Prop where
  threw : s.threw = false
  once : (ids s).Perm (List.range s.accepts)
  distinct : (s.reported.filterMap Report.pipe).Nodup
  own : ∀ r ∈ s.reported, r.ec.failed = false → ∃ h, r.own = some h ∧ r.pipe = some h
  owned : ∀ h, h < s.handles.length → h ∈ held s

/-- A pipe is created only while the pipe of the acceptor is closed, and a
handler is told of a success only while its own handle is in there. -/
def Undisturbed (s : State) : Label → Prop
  | .accept none _ _ => s.pipe = none
  | .accept (some _) _ _ => True
  | .complete _ _ => True
  | .run id => ∀ a ec, s.waiting.find? (·.id = id) = some a → a.posted = some ec →
      ec.failed = false → s.pipe = some a.own

/-- No accept is called while another one is outstanding. -/
def Alone (s : State) : Label → Prop
  | .accept _ _ _ => s.waiting = []
  | _ => True

structure Invariant (s : State) : Prop where
  once : (ids s).Perm (List.range s.accepts)
  held : (held s).Perm (List.range s.handles.length)

inductive Stepped (s : State) : Label → State → Prop
  | refused (f : Failure) (fConnected : Bool) (lastError : UInt32) :
      Stepped s (.accept (some f) fConnected lastError)
        { s with
          pipe := none
          accepts := s.accepts + 1
          reported := s.reported ++ [⟨s.accepts, none, f.val, s.pipe⟩] }
  | threw {s' : State} (fConnected : Bool) (lastError : UInt32) (h : Handle) :
      s.pipe = some h → s'.threw = true →
      Stepped s (.accept none fConnected lastError) s'
  | assigned (fConnected : Bool) (lastError : UInt32) : s.pipe = none →
      Stepped s (.accept none fConnected lastError)
        { s with
          handles := s.handles.opened true
          pipe := some s.handles.length
          waiting := s.waiting ++ [⟨s.accepts, s.handles.length,
            posted (asyncServerConnect fConnected lastError)⟩]
          accepts := s.accepts + 1 }
  | completed (error : Option Failure) (id : Nat) (own : Handle) :
      s.waiting.find? (·.id = id) = some ⟨id, own, none⟩ →
      Stepped s (.complete id error)
        { s with
          waiting := s.waiting.eraseP (·.id = id) ++ [⟨id, own, some (completion error)⟩] }
  | handled (id : Nat) (own : Handle) (ec : ErrorCode) :
      s.waiting.find? (·.id = id) = some ⟨id, own, some ec⟩ →
      Stepped s (.run id)
        { s with
          pipe := none
          waiting := s.waiting.eraseP (·.id = id)
          reported := s.reported ++ [⟨id, some own, ec, s.pipe⟩] }

theorem id_of_find? {s : State} {id : Nat} {a : Accept}
    (ha : s.waiting.find? (·.id = id) = some a) : a.id = id := by
  simpa using List.find?_some ha

theorem stepped_of_step {s s' : State} {l : Label} (h : step s l = some s') : Stepped s l s' := by
  cases l with
  | accept error fConnected lastError =>
      obtain ⟨handles, pipe, waiting, accepts, reported, threw⟩ := s
      cases error with
      | some f =>
          cases h
          exact .refused f fConnected lastError
      | none =>
          cases pipe with
          | some hPipe =>
              cases h
              exact .threw fConnected lastError hPipe rfl rfl
          | none =>
              cases h
              exact .assigned fConnected lastError rfl
  | complete id error =>
      simp only [step] at h
      split at h
      · next id' own hfind =>
          obtain rfl : id' = id := id_of_find? hfind
          cases h
          exact .completed error id' own hfind
      · cases h
  | run id =>
      simp only [step] at h
      split at h
      · next id' own ec hfind =>
          obtain rfl : id' = id := id_of_find? hfind
          cases h
          exact .handled id' own ec hfind
      · cases h

theorem held_handler (s : State) (id : Nat) (own : Option Handle) (ec : ErrorCode) :
    (held (s.handler id own ec)).Perm (held s) := by
  simp only [held, State.handler, List.filterMap_append]
  cases s.pipe with
  | none => exact .of_eq (List.append_nil _)
  | some h => exact List.perm_append_singleton h _

theorem invariant_of_stepped {s s' : State} {l : Label} (hs : Invariant s)
    (h : Stepped s l s') (hthrew : s'.threw = false) : Invariant s' := by
  cases h with
  | refused f fConnected lastError =>
      refine ⟨perm_range_succ hs.once ?_, (held_handler s s.accepts none f.val).trans hs.held⟩
      simp only [ids, List.map_append, List.map_cons, List.map_nil, ← List.append_assoc]
      exact List.perm_append_singleton _ _
  | threw fConnected lastError hPipe hpipe hthrew' => cases hthrew.symm.trans hthrew'
  | assigned fConnected lastError hpipe =>
      constructor
      · refine perm_range_succ hs.once ?_
        simp only [ids, List.map_append, List.map_cons, List.map_nil, List.append_assoc]
        exact List.perm_middle
      · change (held _).Perm (List.range (s.handles.opened true).length)
        rw [Handles.length_opened]
        refine perm_range_succ hs.held ?_
        simp [held, hpipe]
  | completed error id own hfind =>
      refine ⟨List.Perm.trans ?_ hs.once, hs.held⟩
      have hperm := (perm_cons_eraseP hfind).map Accept.id
      refine List.Perm.append_right _ (List.Perm.trans ?_ hperm.symm)
      rw [List.map_append]
      exact List.perm_append_singleton _ _
  | handled id own ec hfind =>
      refine ⟨List.Perm.trans ?_ hs.once, ?_⟩
      · have hperm := (perm_cons_eraseP hfind).map Accept.id
        refine List.Perm.trans ?_ (hperm.symm.append_right _)
        simp only [ids, List.map_append, List.map_cons, List.map_nil, ← List.append_assoc]
        exact List.perm_append_singleton _ _
      · exact (held_handler { s with waiting := _ } id (some own) ec).trans hs.held

theorem Invariant.sound {s : State} (hs : Invariant s) (hthrew : s.threw = false)
    (hown : ∀ r ∈ s.reported, r.ec.failed = false → ∃ h, r.own = some h ∧ r.pipe = some h) :
    Sound s where
  threw := hthrew
  once := hs.once
  distinct := (List.nodup_append.mp (hs.held.nodup_iff.mpr List.nodup_range)).2.1
  own := hown
  owned := fun _ hlt => hs.held.mem_iff.mpr (List.mem_range.mpr hlt)

theorem own_concat_iff {s : State} (hs : Sound s) (r : Report) :
    (∀ r' ∈ s.reported ++ [r], r'.ec.failed = false →
      ∃ h, r'.own = some h ∧ r'.pipe = some h) ↔
        (r.ec.failed = false → ∃ h, r.own = some h ∧ r.pipe = some h) := by
  constructor
  · intro h
    exact h r (List.mem_append_right _ (List.mem_singleton_self r))
  · intro hr r' hr'
    rcases List.mem_append.mp hr' with hr' | hr'
    · exact hs.own r' hr'
    · rw [List.mem_singleton.mp hr']
      exact hr

theorem sound_iff_of_stepped {s s' : State} {l : Label} (hsound : Sound s)
    (hs' : s'.threw = false → Invariant s') (h : Stepped s l s') :
    Sound s' ↔ Undisturbed s l := by
  cases h with
  | refused f fConnected lastError =>
      refine iff_of_true ((hs' hsound.threw).sound hsound.threw ?_) trivial
      refine (own_concat_iff hsound _).mpr fun hec => ?_
      cases f.failed.symm.trans hec
  | threw fConnected lastError hPipe hpipe hthrew =>
      refine iff_of_false (fun h => ?_) (fun h => ?_)
      · cases hthrew.symm.trans h.threw
      · cases hpipe.symm.trans h
  | assigned fConnected lastError hpipe =>
      exact iff_of_true ((hs' hsound.threw).sound hsound.threw hsound.own) hpipe
  | completed error id own hfind =>
      exact iff_of_true ((hs' hsound.threw).sound hsound.threw hsound.own) trivial
  | handled id own ec hfind =>
      constructor
      · rintro hsound' a ec' ha hposted hec
        cases hfind.symm.trans ha
        cases hposted
        obtain ⟨hPipe, hown, hpipe⟩ := (own_concat_iff hsound _).mp hsound'.own hec
        cases hown
        exact hpipe
      · intro hundisturbed
        refine (hs' hsound.threw).sound hsound.threw ((own_concat_iff hsound _).mpr fun hec => ?_)
        exact ⟨own, rfl, hundisturbed _ ec hfind rfl hec⟩

theorem Stepped.threw_eq_false {s s' : State} {l : Label} (h : Stepped s l s')
    (hthrew : s'.threw = false) : s.threw = false := by
  cases h with
  | threw fConnected lastError hPipe hpipe hthrew' => cases hthrew.symm.trans hthrew'
  | refused | assigned | completed | handled => exact hthrew

/-- At most one accept is outstanding, and its handle is in the pipe of the
acceptor. -/
inductive Single (s : State) : Prop
  | idle : s.waiting = [] → s.pipe = none → Single s
  | accepting (a : Accept) : s.waiting = [a] → s.pipe = some a.own → Single s

theorem Single.of_find? {s : State} (hs : Single s) {id : Nat} {a : Accept}
    (ha : s.waiting.find? (·.id = id) = some a) :
    s.waiting = [a] ∧ s.pipe = some a.own ∧ s.waiting.eraseP (·.id = id) = [] := by
  have hmem := List.mem_of_find?_eq_some ha
  have hid := id_of_find? ha
  cases hs with
  | idle hwaiting hpipe =>
      rw [hwaiting] at hmem
      cases hmem
  | accepting a' hwaiting hpipe =>
      rw [hwaiting] at hmem
      obtain rfl := List.mem_singleton.mp hmem
      exact ⟨hwaiting, hpipe, by simp [hwaiting, hid]⟩

theorem single_of_stepped {s s' : State} {l : Label} (hs : Single s) (halone : Alone s l)
    (h : Stepped s l s') : Single s' := by
  have hidle : s.waiting = [] → s.pipe = none := by
    intro hnil
    cases hs with
    | idle _ hpipe => exact hpipe
    | accepting a hwaiting hpipe => cases hwaiting.symm.trans hnil
  cases h with
  | refused f fConnected lastError => exact .idle halone rfl
  | threw fConnected lastError hPipe hpipe hthrew => cases hpipe.symm.trans (hidle halone)
  | assigned fConnected lastError hpipe =>
      have hwaiting : s.waiting = [] := halone
      rw [hwaiting]
      exact .accepting _ rfl rfl
  | completed error id own hfind =>
      obtain ⟨-, hpipe, hrest⟩ := hs.of_find? hfind
      rw [hrest]
      exact .accepting _ rfl hpipe
  | handled id own ec hfind => exact .idle (hs.of_find? hfind).2.2 rfl

theorem undisturbed_of_alone {s : State} {l : Label} (hs : Single s) (halone : Alone s l) :
    Undisturbed s l := by
  cases l with
  | accept error fConnected lastError =>
      cases error with
      | some f => trivial
      | none =>
          cases hs with
          | idle _ hpipe => exact hpipe
          | accepting a hwaiting hpipe => cases hwaiting.symm.trans halone
  | complete id error => trivial
  | run id =>
      intro a ec ha _ _
      exact (hs.of_find? ha).2.1

/-- The acceptor is sound all along a run exactly if the accepts do not disturb
each other's handles, and so it is if they do not overlap. -/
theorem overlappingAccepts_sound_iff (labels : List Label) :
    (system.AllStates Sound start labels ↔ system.AllSteps Undisturbed start labels) ∧
      (system.AllSteps Alone start labels → system.AllStates Sound start labels) := by
  have hiff : system.AllStates Sound start labels ↔
      system.AllSteps Undisturbed start labels := by
    have hstep : ∀ s l s', (s.threw = false → Invariant s) → system.step s l = some s' →
        s'.threw = false → Invariant s' := by
      intro s l s' hs h hthrew
      have hstepped := stepped_of_step h
      exact invariant_of_stepped (hs (hstepped.threw_eq_false hthrew)) hstepped hthrew
    refine System.allStates_iff_allSteps (I := fun s => s.threw = false → Invariant s) hstep ?_
      ?_ ?_ labels
    · intro s l s' hs hsound h
      exact sound_iff_of_stepped hsound (hstep s l s' hs h) (stepped_of_step h)
    · exact fun _ => ⟨.nil, .nil⟩
    · exact ⟨rfl, .nil, .nil, fun r hr => absurd hr List.not_mem_nil, fun h hlt => by cases hlt⟩
  refine ⟨hiff, fun halone => hiff.mpr ?_⟩
  refine System.AllSteps.mono (I := Single) ?_ (fun s l => undisturbed_of_alone) ?_ halone
  · intro s l s' hs halone h
    exact single_of_stepped hs halone (stepped_of_step h)
  · exact .idle rfl rfl

/-- Two accepts at the same time: the second call throws, and the handle it
created is in no pipe. -/
theorem not_sound_overlapping :
    let labels : List Label := [.accept none false 997, .accept none false 997]
    (∃ s, system.run start labels = some s ∧ s.threw = true ∧ s.handles.length = 2 ∧
      held s = [0]) ∧ ¬ system.AllStates Sound start labels := by
  refine ⟨⟨_, rfl, rfl, rfl, rfl⟩, fun h => ?_⟩
  have hsound := ((h.2 _ rfl).2 _ rfl).threw
  cases hsound

end Winasio.PipeAcceptor
