import Winasio.EraseFirst
import Winasio.NamedPipe
import Winasio.Transition

/-!
The accept loop of a server: `async_accept` into one pipe object, from which
the handler moves the pipe into a session before it accepts the next client.
-/

namespace Winasio.AcceptLoop

open Winasio.Transition
open Winasio.EraseFirst
open Winasio.NamedPipe

/-- The acceptor and the loop. `waiting` are the accepts whose handler has not
run, with the error code if the completion is posted; `calling` says that
`do_accept` runs next, and `threw` that it ended with an exception. -/
structure State where
  handles : Handles := []
  pipe : Option Handle := none
  waiting : List (Nat × Option ErrorCode) := []
  accepts : Nat := 0
  reported : List (Nat × ErrorCode) := []
  sessions : List Handle := []
  calling : Bool := true
  threw : Bool := false
  deriving DecidableEq, Repr

namespace State

/-- The handler in `do_accept`: a connected pipe is moved into a session, and
`do_accept` is called again. -/
def handler (s : State) (id : Nat) (ec : ErrorCode) : State :=
  let s := { s with reported := s.reported ++ [(id, ec)] }
  let s := if ec.failed then s else { s with sessions := s.sessions ++ s.pipe.toList, pipe := none }
  { s with calling := true }

/-- `async_accept(pipe, handler)`. The handler of a failed `server_create` runs
inside of the call. -/
def asyncAccept (s : State) (error : Option Failure) (fConnected : Bool) (lastError : UInt32) :
    State :=
  let id := s.accepts
  let s := { s with accepts := id + 1, calling := false }
  match serverCreate s.handles s.pipe error with
  | .failed f => s.handler id f.val
  | .threw handles => { s with handles, threw := true }
  | .assigned handles hPipe =>
      { s with
        handles
        pipe := some hPipe
        waiting := s.waiting ++ [(id, posted (asyncServerConnect fConnected lastError))] }

end State

/-- `do_accept` calls `async_accept`, with the outcomes of `CreateNamedPipe` and
`ConnectNamedPipe`; a pending connect is completed; the executor runs a
handler. -/
inductive Label where
  | accept (error : Option Failure) (fConnected : Bool) (lastError : UInt32)
  | complete (id : Nat) (error : Option Failure)
  | run (id : Nat)

def step (s : State) (l : Label) : Option State :=
  if s.threw then none
  else
    match l with
    | .accept error fConnected lastError =>
        if s.calling then some (s.asyncAccept error fConnected lastError) else none
    | .complete id error =>
        match s.waiting.find? (·.1 = id) with
        | some (_, none) =>
            some { s with
              waiting := s.waiting.eraseP (·.1 = id) ++ [(id, some (completion error))] }
        | _ => none
    | .run id =>
        if s.calling then none
        else
          match s.waiting.find? (·.1 = id) with
          | some (_, some ec) =>
              some ({ s with waiting := s.waiting.eraseP (·.1 = id) }.handler id ec)
          | _ => none

def system : System State Label := ⟨step⟩

def start : State := {}

def ids (s : State) : List Nat := s.waiting.map Prod.fst ++ s.reported.map Prod.fst

/-- No call throws, every handler runs once, and when the next client is to be
accepted the pipe is closed and every instance is with a session or closed. -/
structure Sound (s : State) : Prop where
  threw : s.threw = false
  once : (ids s).Perm (List.range s.accepts)
  closed : s.calling = true → s.pipe = none ∧
    ∀ h x, s.handles[h]? = some x → x.closed = true ∨ h ∈ s.sessions

/-- The handler that runs is not told that its connect failed. -/
def NoConnectError (s : State) : Label → Prop
  | .run id => ∀ ec, (id, some ec) ∈ s.waiting → ec.failed = false
  | _ => True

inductive Phase (s : State) : Prop
  | calling : s.calling = true → s.waiting = [] → Phase s
  | connecting (w : Nat × Option ErrorCode) (h : Handle) : s.calling = false →
      s.waiting = [w] → s.pipe = some h → Phase s

structure Invariant (s : State) : Prop where
  phase : Phase s
  once : (ids s).Perm (List.range s.accepts)
  owned : ∀ h x, s.handles[h]? = some x → s.pipe = some h ∨ h ∈ s.sessions

inductive Stepped (s : State) : Label → State → Prop
  | refused (f : Failure) (fConnected : Bool) (lastError : UInt32) :
      s.calling = true → s.waiting = [] →
      Stepped s (.accept (some f) fConnected lastError)
        { s with
          accepts := s.accepts + 1
          reported := s.reported ++ [(s.accepts, f.val)] }
  | threw {s' : State} (fConnected : Bool) (lastError : UInt32) (h : Handle) :
      s.calling = true → s.pipe = some h → s'.threw = true →
      Stepped s (.accept none fConnected lastError) s'
  | assigned (fConnected : Bool) (lastError : UInt32) :
      s.calling = true → s.waiting = [] → s.pipe = none →
      Stepped s (.accept none fConnected lastError)
        { s with
          handles := s.handles.opened true
          pipe := some s.handles.length
          waiting := [(s.accepts, posted (asyncServerConnect fConnected lastError))]
          accepts := s.accepts + 1
          calling := false }
  | completed (id : Nat) (error : Option Failure) (h : Handle) :
      s.calling = false → s.waiting = [(id, none)] → s.pipe = some h →
      Stepped s (.complete id error) { s with waiting := [(id, some (completion error))] }
  | connected (id : Nat) (ec : ErrorCode) (h : Handle) :
      s.waiting = [(id, some ec)] → s.pipe = some h → ec.failed = false →
      Stepped s (.run id)
        { s with
          pipe := none
          waiting := []
          reported := s.reported ++ [(id, ec)]
          sessions := s.sessions ++ [h]
          calling := true }
  | failed (id : Nat) (ec : ErrorCode) (h : Handle) :
      s.waiting = [(id, some ec)] → s.pipe = some h → ec.failed = true →
      Stepped s (.run id)
        { s with waiting := [], reported := s.reported ++ [(id, ec)], calling := true }

theorem Phase.waiting_of_calling {s : State} (h : Phase s) (hcalling : s.calling = true) :
    s.waiting = [] := by
  cases h with
  | calling _ hwaiting => exact hwaiting
  | connecting w h hcalling' => cases hcalling.symm.trans hcalling'

theorem Phase.of_find? {s : State} (h : Phase s) {id : Nat} {w : Nat × Option ErrorCode}
    (hw : s.waiting.find? (·.1 = id) = some w) :
    s.calling = false ∧ w.1 = id ∧ s.waiting = [w] ∧ ∃ hPipe, s.pipe = some hPipe := by
  have hid : w.1 = id := by simpa using List.find?_some hw
  have hmem := List.mem_of_find?_eq_some hw
  cases h with
  | calling _ hwaiting =>
      rw [hwaiting] at hmem
      cases hmem
  | connecting w' hPipe hcalling hwaiting hpipe =>
      rw [hwaiting] at hmem
      rw [List.mem_singleton.mp hmem] at hid ⊢
      exact ⟨hcalling, hid, hwaiting, hPipe, hpipe⟩

theorem stepped_of_step {s s' : State} {l : Label} (hs : Invariant s)
    (h : step s l = some s') : Stepped s l s' := by
  obtain ⟨-, h⟩ := Option.ite_none_left_eq_some.mp h
  cases l with
  | accept error fConnected lastError =>
      obtain ⟨hcalling, h⟩ := Option.ite_none_right_eq_some.mp h
      have hwaiting := hs.phase.waiting_of_calling hcalling
      rcases s with ⟨handles, pipe, waiting, accepts, reported, sessions, calling, threw⟩
      cases hcalling
      cases hwaiting
      cases error with
      | some f =>
          have hs' := Option.some.inj h
          simp only [State.asyncAccept, serverCreate, State.handler, f.failed, if_true] at hs'
          subst hs'
          exact .refused f fConnected lastError rfl rfl
      | none =>
          cases pipe with
          | some hPipe =>
              cases h
              exact .threw fConnected lastError hPipe rfl rfl rfl
          | none =>
              cases h
              exact .assigned fConnected lastError rfl rfl rfl
  | complete id error =>
      dsimp only at h
      split at h
      · next id' hfind =>
          obtain ⟨hcalling, rfl, hwaiting, hPipe, hpipe⟩ := hs.phase.of_find? hfind
          cases h
          have hrest : s.waiting.eraseP (·.1 = id') = [] := by simp [hwaiting]
          rw [hrest]
          exact .completed id' error hPipe hcalling hwaiting hpipe
      · cases h
  | run id =>
      obtain ⟨hcalling, h⟩ := Option.ite_none_left_eq_some.mp h
      split at h
      · next id' ec hfind =>
          obtain ⟨-, rfl, hwaiting, hPipe, hpipe⟩ := hs.phase.of_find? hfind
          have hs' := Option.some.inj h
          have hrest : s.waiting.eraseP (·.1 = id') = [] := by simp [hwaiting]
          rw [hrest] at hs'
          cases hec : ec.failed with
          | false =>
              simp only [State.handler, hec, hpipe, Bool.false_eq_true, if_false,
                Option.toList_some] at hs'
              subst hs'
              exact .connected id' ec hPipe hwaiting hpipe hec
          | true =>
              simp only [State.handler, hec, if_true] at hs'
              subst hs'
              exact .failed id' ec hPipe hwaiting hpipe hec
      · cases h

theorem reported_perm {s : State} {id : Nat} {posted : Option ErrorCode}
    (hwaiting : s.waiting = [(id, posted)]) {ec : ErrorCode} :
    (([] : List Nat) ++ (s.reported ++ [(id, ec)]).map Prod.fst).Perm (ids s) := by
  simp only [ids, hwaiting, List.map_append, List.map_cons, List.map_nil, List.nil_append]
  exact List.perm_append_comm

theorem invariant_of_stepped {s s' : State} {l : Label} (hs : Invariant s)
    (h : Stepped s l s') (hthrew : s'.threw = false) : Invariant s' := by
  cases h with
  | refused f fConnected lastError hcalling hwaiting =>
      refine ⟨.calling hcalling hwaiting, perm_range_succ hs.once ?_, hs.owned⟩
      simp only [ids, List.map_append, List.map_cons, List.map_nil, ← List.append_assoc]
      exact List.perm_append_singleton _ _
  | threw fConnected lastError hPipe hcalling hpipe hthrew' => cases hthrew.symm.trans hthrew'
  | assigned fConnected lastError hcalling hwaiting hpipe =>
      refine ⟨.connecting _ _ rfl rfl rfl, perm_range_succ hs.once ?_, ?_⟩
      · simp [ids, hwaiting]
      · intro h x hx
        by_cases hh : h = s.handles.length
        · exact .inl (congrArg some hh.symm)
        · rcases hs.owned h x ((getElem?_opened_of_ne hh).symm.trans hx) with howned | howned
          · cases hpipe.symm.trans howned
          · exact .inr howned
  | completed id error hPipe hcalling hwaiting hpipe =>
      refine ⟨.connecting _ _ hcalling rfl hpipe, ?_, hs.owned⟩
      simpa [ids, hwaiting] using hs.once
  | connected id ec hPipe hwaiting hpipe hec =>
      refine ⟨.calling rfl rfl, ?_, ?_⟩
      · exact (reported_perm hwaiting).trans hs.once
      · intro h x hx
        refine .inr (List.mem_append.mpr ?_)
        rcases hs.owned h x hx with howned | howned
        · cases hpipe.symm.trans howned
          exact .inr (List.mem_singleton_self _)
        · exact .inl howned
  | failed id ec hPipe hwaiting hpipe hec =>
      exact ⟨.calling rfl rfl, (reported_perm hwaiting).trans hs.once, hs.owned⟩

theorem sound_iff_of_stepped {s s' : State} {l : Label} (hsound : Sound s)
    (hs' : s'.threw = false → Invariant s') (h : Stepped s l s') :
    Sound s' ↔ NoConnectError s l := by
  have hsessions : ∀ t : State, Invariant t → t.pipe = none →
      ∀ h x, t.handles[h]? = some x → x.closed = true ∨ h ∈ t.sessions := by
    intro t ht hpipe h x hx
    rcases ht.owned h x hx with howned | howned
    · cases hpipe.symm.trans howned
    · exact .inr howned
  have hsound' : s'.threw = false → (s'.calling = true → s'.pipe = none) → Sound s' := by
    intro hthrew hpipe
    have hinv := hs' hthrew
    exact ⟨hthrew, hinv.once, fun hcalling => ⟨hpipe hcalling, hsessions s' hinv (hpipe hcalling)⟩⟩
  cases h with
  | refused f fConnected lastError hcalling hwaiting =>
      exact iff_of_true (hsound' hsound.threw fun _ => (hsound.closed hcalling).1) trivial
  | threw fConnected lastError hPipe hcalling hpipe hthrew =>
      cases hpipe.symm.trans (hsound.closed hcalling).1
  | assigned fConnected lastError hcalling hwaiting hpipe =>
      exact iff_of_true (hsound' hsound.threw (fun hfalse => by cases hfalse)) trivial
  | completed id error hPipe hcalling hwaiting hpipe =>
      refine iff_of_true (hsound' hsound.threw ?_) trivial
      intro hcalling'
      cases hcalling.symm.trans hcalling'
  | connected id ec hPipe hwaiting hpipe hec =>
      refine iff_of_true (hsound' hsound.threw fun _ => rfl) ?_
      intro ec' hmem
      rw [hwaiting] at hmem
      cases List.mem_singleton.mp hmem
      exact hec
  | failed id ec hPipe hwaiting hpipe hec =>
      refine iff_of_false (fun hsound' => ?_) (fun hno => ?_)
      · cases hpipe.symm.trans (hsound'.closed rfl).1
      · have hmem : (id, some ec) ∈ s.waiting := by
          rw [hwaiting]
          exact List.mem_singleton_self _
        cases hec.symm.trans (hno ec hmem)

theorem threw_of_step {s s' : State} {l : Label} (h : step s l = some s') : s.threw = false := by
  obtain ⟨hthrew, -⟩ := Option.ite_none_left_eq_some.mp h
  simpa using hthrew

/-- The loop is sound all along a run exactly if no handler of the run is told
that its connect failed; `CreateNamedPipe` may fail. -/
theorem acceptLoop_sound_iff (labels : List Label) :
    system.AllStates Sound start labels ↔ system.AllSteps NoConnectError start labels := by
  have hstep : ∀ s l s', (s.threw = false → Invariant s) → system.step s l = some s' →
      s'.threw = false → Invariant s' := by
    intro s l s' hs h
    have hinv := hs (threw_of_step h)
    exact invariant_of_stepped hinv (stepped_of_step hinv h)
  refine System.allStates_iff_allSteps (I := fun s => s.threw = false → Invariant s) hstep ?_ ?_
    ?_ labels
  · intro s l s' hs hsound h
    have hinv := hs hsound.threw
    exact sound_iff_of_stepped hsound (hstep s l s' hs h) (stepped_of_step hinv h)
  · intro _
    exact ⟨.calling rfl rfl, .nil, fun h x hx => by cases hx⟩
  · exact ⟨rfl, .nil, fun _ => ⟨rfl, fun h x hx => by cases hx⟩⟩

/-- A client that came and left before `ConnectNamedPipe`: `ERROR_NO_DATA`. -/
def clientLeft : List Label := [.accept none false 232, .run 0]

/-- The pipe stays open behind the error, and the next accept throws; its new
instance is left behind. -/
theorem not_sound_clientLeft :
    ¬ system.AllStates Sound start clientLeft ∧
      ∃ s, system.run start (clientLeft ++ [.accept none false 997]) = some s ∧
        s.reported = [(0, ⟨232⟩)] ∧ s.threw = true ∧ s.handles.length = 2 ∧ s.sessions = [] := by
  refine ⟨fun h => ?_, _, rfl, rfl, rfl, rfl, rfl⟩
  have hsound := (((h.2 _ rfl).2 _ rfl).closed rfl).1
  cases hsound

end Winasio.AcceptLoop
