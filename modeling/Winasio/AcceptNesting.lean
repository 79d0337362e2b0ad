import Winasio.NamedPipe
import Winasio.Transition

/-!
The calls on the stack of the thread that runs a server whose accept handler
calls `async_accept` again: where a handler is invoked while the `async_accept`
it was given to has not returned.
-/

namespace Winasio.AcceptNesting

open Winasio.Transition
open Winasio.NamedPipe

/-- `async_accept` into a pipe of the caller, which the handler may move to a
session, or with the pipe of the acceptor moved into the handler. -/
inductive Form where
  | reference
  | move
  deriving DecidableEq, Repr

/-- Where an `async_accept` stands: before `CreateNamedPipe`, before
`ConnectNamedPipe`, or with nothing left to do. -/
inductive Point where
  | create
  | connect
  | returning
  deriving DecidableEq, Repr

/-- A call on the stack. A handler has the `socket` that was moved into it, and it
returns once it has called `async_accept`. -/
inductive Frame where
  | asyncAccept (id : Nat) (point : Point)
  | handler (id : Nat) (ec : ErrorCode) (socket : Option Handle) (accepted : Bool)
  deriving DecidableEq, Repr

def Frame.isHandler : Frame → Bool
  | .asyncAccept .. => false
  | .handler .. => true

def Frame.socket : Frame → Option Handle
  | .asyncAccept .. => none
  | .handler _ _ socket _ => socket

/-- The stack, innermost call first; the accepts by number, those whose connect is
pending and those whose completion is posted. -/
structure State where
  stack : List Frame := [.asyncAccept 0 .create]
  handles : Handles := []
  pipe : Option Handle := none
  pending : List Nat := []
  queue : List (Nat × ErrorCode) := []
  accepts : Nat := 1
  deriving DecidableEq, Repr

namespace State

/-- `std::move(handler)(ec)`, or with `std::move(pipe_)`. -/
def invoke (form : Form) (s : State) (id : Nat) (ec : ErrorCode) : State :=
  match form with
  | .reference => { s with stack := .handler id ec none false :: s.stack }
  | .move => { s with stack := .handler id ec s.pipe false :: s.stack, pipe := none }

/-- An exception leaves all calls, and destroys what their frames hold. -/
def unwind (s : State) : State :=
  { s with stack := [], handles := (s.stack.filterMap Frame.socket).foldl Handles.close s.handles }

/-- `async_accept` up to `async_server_connect`: the handler of a failed
`server_create` is invoked from within. -/
def createNamedPipe (form : Form) (s : State) (error : Option Failure) : Option State :=
  match s.stack with
  | .asyncAccept id .create :: rest =>
      match serverCreate s.handles s.pipe error with
      | .failed f =>
          some ({ s with stack := .asyncAccept id .returning :: rest }.invoke form id f.val)
      | .threw handles => some { s with handles }.unwind
      | .assigned handles hPipe =>
          some { s with handles, pipe := some hPipe, stack := .asyncAccept id .connect :: rest }
  | _ => none

/-- The handler of a connect that is completed at once is posted. -/
def connectNamedPipe (s : State) (fConnected : Bool) (lastError : UInt32) : Option State :=
  match s.stack with
  | .asyncAccept id .connect :: rest =>
      match posted (asyncServerConnect fConnected lastError) with
      | none =>
          some { s with stack := .asyncAccept id .returning :: rest, pending := s.pending ++ [id] }
      | some ec =>
          some { s with
            stack := .asyncAccept id .returning :: rest
            queue := s.queue ++ [(id, ec)] }
  | _ => none

/-- The handler may move the pipe into a session before it calls `async_accept`. -/
def accept (form : Form) (s : State) (session : Bool) : Option State :=
  match s.stack with
  | .handler id ec socket false :: rest =>
      some { s with
        stack := .asyncAccept s.accepts .create ::
          .handler id ec (if session then none else socket) true :: rest
        pipe := if session ∧ form = .reference then none else s.pipe
        accepts := s.accepts + 1 }
  | _ => none

def ret (s : State) : Option State :=
  match s.stack with
  | .asyncAccept _ .returning :: rest => some { s with stack := rest }
  | .handler _ _ socket true :: rest =>
      some { s with stack := rest, handles := socket.elim s.handles s.handles.close }
  | _ => none

def complete (s : State) (id : Nat) (error : Option Failure) : Option State :=
  if id ∈ s.pending then
    some { s with pending := s.pending.erase id, queue := s.queue ++ [(id, completion error)] }
  else none

/-- The executor only runs a handler once the stack is empty. -/
def run (form : Form) (s : State) (id : Nat) : Option State :=
  match s.stack, s.queue.find? (·.1 = id) with
  | [], some (_, ec) => some ({ s with queue := s.queue.eraseP (·.1 = id) }.invoke form id ec)
  | _, _ => none

end State

inductive Label where
  | createNamedPipe (error : Option Failure)
  | connectNamedPipe (fConnected : Bool) (lastError : UInt32)
  | accept (session : Bool)
  | ret
  | complete (id : Nat) (error : Option Failure)
  | run (id : Nat)
  deriving DecidableEq

def step (form : Form) (s : State) : Label → Option State
  | .createNamedPipe error => s.createNamedPipe form error
  | .connectNamedPipe fConnected lastError => s.connectNamedPipe fConnected lastError
  | .accept session => s.accept form session
  | .ret => s.ret
  | .complete id error => s.complete id error
  | .run id => s.run form id

def system (form : Form) : System State Label := ⟨step form⟩

def activations (s : State) : Nat := s.stack.countP Frame.isHandler

/-- No handler runs while the `async_accept` it was given to has not returned, and
at most one handler is on the stack. -/
structure Sound (s : State) : Prop where
  returned : ∀ id ec socket accepted point,
    .handler id ec socket accepted ∈ s.stack → .asyncAccept id point ∉ s.stack
  once : activations s ≤ 1

/-- `CreateNamedPipe` does not fail. -/
def Creates : Label → Prop
  | .createNamedPipe (some _) => False
  | _ => True

/-- The stacks of a server none of whose calls is nested in a handler of its own. -/
inductive Shape (accepts : Nat) : List Frame → Prop
  | idle : Shape accepts []
  | accepting {id : Nat} (point : Point) : id < accepts → Shape accepts [.asyncAccept id point]
  | handling {id : Nat} (ec : ErrorCode) (socket : Option Handle) (accepted : Bool) :
      id < accepts → Shape accepts [.handler id ec socket accepted]
  | accepting_again {id id' : Nat} (point : Point) (ec : ErrorCode) (socket : Option Handle) :
      id < id' → id' < accepts →
      Shape accepts [.asyncAccept id' point, .handler id ec socket true]

structure Shallow (s : State) : Prop where
  shape : Shape s.accepts s.stack
  pending : ∀ id ∈ s.pending, id < s.accepts
  queue : ∀ p ∈ s.queue, p.1 < s.accepts

theorem Shallow.sound {s : State} (h : Shallow s) : Sound s := by
  obtain ⟨stack, handles, pipe, pending, queue, accepts⟩ := s
  obtain ⟨hshape, -, -⟩ := h
  cases hshape with
  | idle => exact ⟨by simp, by simp [activations]⟩
  | accepting point hid => exact ⟨by simp, by simp [activations, Frame.isHandler]⟩
  | handling ec socket accepted hid => exact ⟨by simp, by simp [activations, Frame.isHandler]⟩
  | accepting_again point ec socket hlt hid =>
      refine ⟨?_, by simp [activations, Frame.isHandler]⟩
      intro i ec' socket' accepted' point' hhandler haccept
      simp only [List.mem_cons, reduceCtorEq, Frame.handler.injEq, List.not_mem_nil, or_false,
        false_or] at hhandler
      simp only [List.mem_cons, reduceCtorEq, Frame.asyncAccept.injEq, List.not_mem_nil,
        or_false] at haccept
      omega

theorem Shape.lt {accepts id : Nat} {point : Point} {rest : List Frame}
    (h : Shape accepts (.asyncAccept id point :: rest)) : id < accepts := by
  cases h with
  | accepting point hid => exact hid
  | accepting_again point ec socket hlt hid => exact hid

/-- An `async_accept` goes on. -/
theorem Shape.proceed {accepts id : Nat} {point : Point} {rest : List Frame}
    (h : Shape accepts (.asyncAccept id point :: rest)) (point' : Point) :
    Shape accepts (.asyncAccept id point' :: rest) := by
  cases h with
  | accepting point hid => exact .accepting point' hid
  | accepting_again point ec socket hlt hid => exact .accepting_again point' ec socket hlt hid

theorem Shape.returned {accepts id : Nat} {point : Point} {rest : List Frame}
    (h : Shape accepts (.asyncAccept id point :: rest)) : Shape accepts rest := by
  cases h with
  | accepting point hid => exact .idle
  | accepting_again point ec socket hlt hid =>
      exact .handling ec socket true (Nat.lt_trans hlt hid)

theorem Shape.outermost {accepts id : Nat} {ec : ErrorCode} {socket : Option Handle}
    {accepted : Bool} {rest : List Frame}
    (h : Shape accepts (.handler id ec socket accepted :: rest)) : rest = [] ∧ id < accepts := by
  cases h with
  | handling ec socket accepted hid => exact ⟨rfl, hid⟩

theorem stack_invoke (form : Form) (s : State) (id : Nat) (ec : ErrorCode) :
    ∃ socket, (s.invoke form id ec).stack = .handler id ec socket false :: s.stack := by
  cases form with
  | reference => exact ⟨none, rfl⟩
  | move => exact ⟨s.pipe, rfl⟩

theorem Shallow.invoke {form : Form} {s : State} (h : Shallow s) (hstack : s.stack = [])
    {id : Nat} (hid : id < s.accepts) (ec : ErrorCode) : Shallow (s.invoke form id ec) := by
  cases form with
  | reference =>
      refine ⟨?_, h.pending, h.queue⟩
      rw [State.invoke, hstack]
      exact .handling ec none false hid
  | move =>
      refine ⟨?_, h.pending, h.queue⟩
      rw [State.invoke, hstack]
      exact .handling ec s.pipe false hid

theorem Shallow.createNamedPipe {form : Form} {s s' : State} (h : Shallow s)
    (hs' : s.createNamedPipe form none = some s') : Shallow s' := by
  rw [State.createNamedPipe.eq_def] at hs'
  split at hs'
  · next id rest hstack =>
      have hshape := hstack ▸ h.shape
      split at hs'
      · next f hcreated =>
          cases hpipe : s.pipe with
          | none =>
              rw [hpipe] at hcreated
              cases hcreated
          | some hPipe =>
              rw [hpipe] at hcreated
              cases hcreated
      · cases hs'
        exact ⟨.idle, h.pending, h.queue⟩
      · cases hs'
        exact ⟨hshape.proceed .connect, h.pending, h.queue⟩
  · cases hs'

theorem Shallow.connectNamedPipe {s s' : State} {fConnected : Bool} {lastError : UInt32}
    (h : Shallow s) (hs' : s.connectNamedPipe fConnected lastError = some s') : Shallow s' := by
  rw [State.connectNamedPipe.eq_def] at hs'
  split at hs'
  · next id rest hstack =>
      have hshape := hstack ▸ h.shape
      split at hs'
      · cases hs'
        refine ⟨hshape.proceed .returning, ?_, h.queue⟩
        exact List.forall_mem_append.mpr ⟨h.pending, List.forall_mem_singleton.mpr hshape.lt⟩
      · cases hs'
        refine ⟨hshape.proceed .returning, h.pending, ?_⟩
        exact List.forall_mem_append.mpr ⟨h.queue, List.forall_mem_singleton.mpr hshape.lt⟩
  · cases hs'

theorem Shallow.accept {form : Form} {s s' : State} {session : Bool} (h : Shallow s)
    (hs' : s.accept form session = some s') : Shallow s' := by
  rw [State.accept.eq_def] at hs'
  split at hs'
  · next id ec socket rest hstack =>
      obtain ⟨rfl, hid⟩ := (hstack ▸ h.shape).outermost
      cases hs'
      exact ⟨.accepting_again .create ec _ hid (Nat.lt_succ_self _),
        fun i hi => Nat.lt_succ_of_lt (h.pending i hi),
        fun p hp => Nat.lt_succ_of_lt (h.queue p hp)⟩
  · cases hs'

theorem Shallow.ret {s s' : State} (h : Shallow s) (hs' : s.ret = some s') : Shallow s' := by
  rw [State.ret.eq_def] at hs'
  split at hs'
  · next id rest hstack =>
      cases hs'
      exact ⟨(hstack ▸ h.shape).returned, h.pending, h.queue⟩
  · next id ec socket rest hstack =>
      obtain ⟨rfl, -⟩ := (hstack ▸ h.shape).outermost
      cases hs'
      exact ⟨.idle, h.pending, h.queue⟩
  · cases hs'

theorem Shallow.complete {s s' : State} {id : Nat} {error : Option Failure} (h : Shallow s)
    (hs' : s.complete id error = some s') : Shallow s' := by
  obtain ⟨hmem, hs'⟩ := Option.ite_none_right_eq_some.mp hs'
  cases hs'
  refine ⟨h.shape, fun i hi => h.pending i (List.mem_of_mem_erase hi), ?_⟩
  exact List.forall_mem_append.mpr ⟨h.queue, List.forall_mem_singleton.mpr (h.pending id hmem)⟩

theorem Shallow.run {form : Form} {s s' : State} {id : Nat} (h : Shallow s)
    (hs' : s.run form id = some s') : Shallow s' := by
  rw [State.run.eq_def] at hs'
  split at hs'
  · next i ec hstack hfind =>
      cases hs'
      have hmem := List.mem_of_find?_eq_some hfind
      have hid : i = id := by simpa using List.find?_some hfind
      have hqueue : ∀ p ∈ s.queue.eraseP (·.1 = id), p.1 < s.accepts :=
        fun p hp => h.queue p (List.mem_of_mem_eraseP hp)
      have hrest : Shallow { s with queue := s.queue.eraseP (·.1 = id) } :=
        ⟨h.shape, h.pending, hqueue⟩
      exact hrest.invoke hstack (hid ▸ h.queue _ hmem) ec
  · cases hs'

theorem Shallow.step {form : Form} {s s' : State} {l : Label} (h : Shallow s)
    (hl : Creates l) (hs' : step form s l = some s') : Shallow s' := by
  cases l with
  | createNamedPipe error =>
      cases error with
      | none => exact h.createNamedPipe hs'
      | some f => exact hl.elim
  | connectNamedPipe fConnected lastError => exact h.connectNamedPipe hs'
  | accept session => exact h.accept hs'
  | ret => exact h.ret hs'
  | complete id error => exact h.complete hs'
  | run id => exact h.run hs'

/-- What a failed `CreateNamedPipe` does to the stack. -/
theorem stack_createNamedPipe {form : Form} {s s' : State} {f : Failure}
    (hs' : s.createNamedPipe form (some f) = some s') :
    ∃ id socket rest, s.stack = .asyncAccept id .create :: rest ∧
      s'.stack = .handler id f.val socket false :: .asyncAccept id .returning :: rest := by
  rw [State.createNamedPipe.eq_def] at hs'
  split at hs'
  · next id rest hstack =>
      cases hs'
      obtain ⟨socket, hsocket⟩ := stack_invoke form
        { s with stack := .asyncAccept id .returning :: rest } id f.val
      exact ⟨id, socket, rest, hstack, hsocket⟩
  · cases hs'

theorem creates_of_sound {form : Form} {s s' : State} {l : Label}
    (hs' : step form s l = some s') (h : Sound s') : Creates l := by
  cases l with
  | createNamedPipe error =>
      cases error with
      | none => trivial
      | some f =>
          obtain ⟨id, socket, rest, -, hstack⟩ := stack_createNamedPipe hs'
          refine absurd ?_ (h.returned id f.val socket false .returning ?_)
          · simp [hstack]
          · simp [hstack]
  | connectNamedPipe | accept | ret | complete | run => trivial

theorem shallow_init : Shallow {} :=
  ⟨.accepting .create Nat.zero_lt_one, by simp, by simp⟩

/-- In both forms no handler is nested exactly if `CreateNamedPipe` never fails. -/
theorem sound_iff_creates (form : Form) (labels : List Label) :
    (system form).AllStates Sound {} labels ↔
      (system form).AllSteps (fun _ => Creates) {} labels := by
  apply System.allStates_iff_allSteps_of_stronger (Q := Shallow) _ _ _ shallow_init
  · exact fun s hs => hs.sound
  · exact fun s l s' hs hl h => hs.step hl h
  · exact fun s l s' _ h hs' => creates_of_sound h hs'

/-- The first handler of an acceptor whose pipe cannot be created. -/
theorem not_sound_of_failure :
    ¬ (system .move).AllStates Sound {} [.createNamedPipe (some ⟨⟨231⟩, rfl⟩)] := by
  intro h
  have hreturned := (h.last rfl).returned 0 ⟨231⟩ none false .returning
  exact absurd (hreturned (by decide)) (by decide)

/-- Accepts that fail one after the other, and a handler that accepts again. -/
def failing (f : Failure) : Nat → List Label
  | 0 => []
  | n + 1 => .createNamedPipe (some f) :: .accept false :: failing f n

/-- A failure leaves one more handler on the stack. -/
theorem exists_run_failure (form : Form) (f : Failure) {s : State} {id : Nat}
    {rest : List Frame} (hs : s.stack = .asyncAccept id .create :: rest) :
    ∃ t id' rest', (system form).run s [.createNamedPipe (some f), .accept false] = some t ∧
      t.stack = .asyncAccept id' .create :: rest' ∧ activations t = activations s + 1 := by
  obtain ⟨stack, handles, pipe, pending, queue, accepts⟩ := s
  subst hs
  cases form with
  | reference =>
      refine ⟨_, _, _, rfl, rfl, ?_⟩
      simp [activations, List.countP_cons, Frame.isHandler]
  | move =>
      refine ⟨_, _, _, rfl, rfl, ?_⟩
      simp [activations, List.countP_cons, Frame.isHandler]

/-- As many handlers are on the stack as accepts have failed one after the other. -/
theorem activations_failing (form : Form) (f : Failure) (n : Nat) {s : State} {id : Nat}
    {rest : List Frame} (hs : s.stack = .asyncAccept id .create :: rest) :
    ∃ t, (system form).run s (failing f n) = some t ∧ activations t = activations s + n := by
  induction n generalizing s id rest with
  | zero => exact ⟨s, rfl, rfl⟩
  | succ n ih =>
      obtain ⟨t, id', rest', hrun, ht, hone⟩ := exists_run_failure form f hs
      obtain ⟨u, hu, hrest⟩ := ih ht
      refine ⟨u, ?_, by omega⟩
      change (system form).run s ([.createNamedPipe (some f), .accept false] ++ failing f n) = _
      rw [System.run_append, hrun]
      exact hu

end Winasio.AcceptNesting
