import Winasio.AcceptLoop
import Winasio.Components
import Winasio.EchoClient

/-!
The echo server with its clients: the accept loop of `server`, a session on
every pipe it has accepted, and calls of `make_client_call`, in any
interleaving.
-/

namespace Winasio.EchoServer

open Winasio.Transition
open Winasio.Components
open Winasio.NamedPipe (Handle serverCreate)
open Winasio.EchoClient (Connection)

/-- The pipe instances are numbered like the handles of the server. `waiting` and
`refused` are the messages of the calls that have not yet connected, and of
those that could not. -/
structure State where
  loop : AcceptLoop.State := {}
  connections : List Connection := []
  waiting : List Bytes := []
  refused : List (Bytes × Failure) := []

namespace State

def atConnection (s : State) (h : Handle) (l : EchoClient.Label) : Option State :=
  s.connections[h]?.bind fun c =>
    (c.step l).map fun c' => { s with connections := s.connections.set h c' }

/-- The handle is open. -/
def isOpen (s : State) (h : Handle) : Bool := s.loop.handles[h]?.any fun x => !x.closed

/-- A call that waits opens a pipe instance. -/
def connect (s : State) (i : Nat) (h : Handle) : Option State :=
  if s.isOpen h then
    s.waiting[i]?.bind fun msg =>
      { s with waiting := s.waiting.eraseIdx i }.atConnection h (.connect msg)
  else none

/-- The server has created an instance. -/
def created (s : State) (loop : AcceptLoop.State) : State :=
  { s with loop, connections := s.connections ++ [({} : Connection)] }

/-- A session whose chain is over is destroyed, and its pipe with it. -/
def release (s : State) (h : Handle) : State :=
  if s.connections[h]?.any fun c => c.session.chain = .ended then
    { s with loop := { s.loop with handles := s.loop.handles.close h } }
  else s

end State

/-- `do_accept` creates an instance, which a call may open before the server
does `ConnectNamedPipe`; a pending connect is completed; the handler of an
accept runs; a step at the server's end of a pipe; a call connects, or does not;
a step of a call. -/
inductive Label where
  | accept (error : Option Failure) (early : Option Nat) (fConnected : Bool) (lastError : UInt32)
  | complete (id : Nat) (error : Option Failure)
  | run (id : Nat)
  | session (h : Handle) (l : EchoSession.Label)
  | connect (i : Nat) (h : Handle)
  | refuse (i : Nat) (f : Failure)
  | call (h : Handle)
  | fail (h : Handle) (f : Failure)

def step (s : State) : Label → Option State
  | .accept error early fConnected lastError =>
      (AcceptLoop.step s.loop (.accept error fConnected lastError)).bind fun loop =>
        match error, early with
        | some _, none => some { s with loop }
        | some _, some _ => none
        | none, none => some (s.created loop)
        | none, some i => (s.created loop).connect i s.connections.length
  | .complete id error =>
      (AcceptLoop.step s.loop (.complete id error)).map fun loop => { s with loop }
  | .run id =>
      (AcceptLoop.step s.loop (.run id)).bind fun loop =>
        -- the sessions this handler has made are started
        (loop.sessions.drop s.loop.sessions.length).foldlM
          (fun s h => s.atConnection h (.session .start)) { s with loop }
  | .session h l =>
      if l = .start then none else (s.atConnection h (.session l)).map fun s => s.release h
  | .connect i h => s.connect i h
  | .refuse i f =>
      s.waiting[i]?.map fun msg =>
        { s with waiting := s.waiting.eraseIdx i, refused := s.refused ++ [(msg, f)] }
  | .call h => s.atConnection h .call
  | .fail h f => s.atConnection h (.fail f)

def system : System State Label := ⟨step⟩

/-- The server is constructed, with some calls to come. -/
def start (msgs : List Bytes) : State := { waiting := msgs }

/-- The messages of all calls, whatever has become of them. -/
def calls (s : State) : List Bytes :=
  s.waiting ++ s.refused.map Prod.fst ++ s.connections.filterMap fun c => c.call.map (·.msg)

structure Invariant (msgs : List Bytes) (s : State) : Prop where
  loop : s.loop.threw = false → AcceptLoop.Invariant s.loop
  length : s.connections.length = s.loop.handles.length
  connections : ∀ c ∈ s.connections, EchoClient.Invariant c
  sessions : ∀ h, h ∈ s.loop.sessions ↔
    ∃ c, s.connections[h]? = some c ∧ c.session.chain ≠ .idle
  pipe : ∀ h, s.loop.pipe = some h →
    ∃ c, s.connections[h]? = some c ∧ c.session.chain = .idle
  closed : ∀ (h : Handle) c x, s.connections[h]? = some c → s.loop.handles[h]? = some x →
    (x.closed = true ↔ c.session.chain = .ended)
  calls : (calls s).Perm msgs

/-- What the steps of the accept loop do with handles and sessions. -/
theorem loop_of_refused {s s' : AcceptLoop.State} {f : Failure} {fConnected : Bool}
    {lastError : UInt32} (h : AcceptLoop.step s (.accept (some f) fConnected lastError) = some s') :
    s'.handles = s.handles ∧ s'.pipe = s.pipe ∧ s'.sessions = s.sessions := by
  obtain ⟨-, h⟩ := Option.ite_none_left_eq_some.mp h
  obtain ⟨-, h⟩ := Option.ite_none_right_eq_some.mp h
  cases h
  simp [AcceptLoop.State.asyncAccept, serverCreate, AcceptLoop.State.handler]

theorem loop_of_accept {s s' : AcceptLoop.State} {fConnected : Bool} {lastError : UInt32}
    (h : AcceptLoop.step s (.accept none fConnected lastError) = some s') :
    s'.handles = s.handles.opened true ∧ s'.sessions = s.sessions ∧
      (s'.pipe = s.pipe ∨ s'.pipe = some s.handles.length) := by
  obtain ⟨-, h⟩ := Option.ite_none_left_eq_some.mp h
  obtain ⟨-, h⟩ := Option.ite_none_right_eq_some.mp h
  cases h
  cases hpipe : s.pipe with
  | none => simp [AcceptLoop.State.asyncAccept, serverCreate, hpipe]
  | some hPipe => simp [AcceptLoop.State.asyncAccept, serverCreate, hpipe]

theorem loop_of_complete {s s' : AcceptLoop.State} {id : Nat} {error : Option Failure}
    (h : AcceptLoop.step s (.complete id error) = some s') :
    s'.handles = s.handles ∧ s'.pipe = s.pipe ∧ s'.sessions = s.sessions := by
  obtain ⟨-, h⟩ := Option.ite_none_left_eq_some.mp h
  dsimp only at h
  split at h
  · cases h
    exact ⟨rfl, rfl, rfl⟩
  · cases h

theorem loop_of_run {s s' : AcceptLoop.State} {id : Nat}
    (h : AcceptLoop.step s (.run id) = some s') :
    s'.handles = s.handles ∧
      (s'.pipe = s.pipe ∧ s'.sessions = s.sessions ∨
        s'.pipe = none ∧ s'.sessions = s.sessions ++ s.pipe.toList) := by
  obtain ⟨-, h⟩ := Option.ite_none_left_eq_some.mp h
  obtain ⟨-, h⟩ := Option.ite_none_left_eq_some.mp h
  split at h
  · next id' ec _ =>
      cases h
      cases hec : ec.failed with
      | true => simp [AcceptLoop.State.handler, hec]
      | false => simp [AcceptLoop.State.handler, hec]
  · cases h

theorem loop_of_step {s s' : AcceptLoop.State} {l : AcceptLoop.Label}
    (hs : s.threw = false → AcceptLoop.Invariant s) (h : AcceptLoop.step s l = some s')
    (hthrew : s'.threw = false) : AcceptLoop.Invariant s' := by
  have hinv := hs (AcceptLoop.threw_of_step h)
  exact AcceptLoop.invariant_of_stepped hinv (AcceptLoop.stepped_of_step hinv h) hthrew

theorem loop_close {s : AcceptLoop.State} (hs : AcceptLoop.Invariant s) (h : Handle) :
    AcceptLoop.Invariant { s with handles := s.handles.close h } := by
  refine ⟨?_, hs.once, ?_⟩
  · cases hs.phase with
    | calling hcalling hwaiting => exact .calling hcalling hwaiting
    | connecting w hPipe hcalling hwaiting hpipe => exact .connecting w hPipe hcalling hwaiting hpipe
  · intro h' x hx
    rw [NamedPipe.Handles.close, List.getElem?_modify] at hx
    obtain ⟨y, hy, -⟩ := Option.map_eq_some_iff.mp hx
    exact hs.owned h' y hy

theorem atConnection_eq_some {s s' : State} {h : Handle} {l : EchoClient.Label}
    (hstep : s.atConnection h l = some s') :
    ∃ c c', s.connections[h]? = some c ∧ c.step l = some c' ∧
      s' = { s with connections := s.connections.set h c' } := by
  obtain ⟨c, hc, hstep⟩ := Option.bind_eq_some_iff.mp hstep
  obtain ⟨c', hc', rfl⟩ := Option.map_eq_some_iff.mp hstep
  exact ⟨c, c', hc, hc', rfl⟩

theorem calls_set {s : State} {h : Handle} {c : Connection} (hc : s.connections[h]? = some c)
    (loop : AcceptLoop.State) (c' : Connection) (hmsg : c'.call.map (·.msg) = c.call.map (·.msg)) :
    calls { s with loop, connections := s.connections.set h c' } = calls s := by
  simp only [calls, filterMap_set (f := fun c : Connection => c.call.map (·.msg)) hc hmsg]

section Frame

variable {msgs : List Bytes} {s : State} {h : Handle} {c c' : Connection}

/-- A step at a connection that does not move its session. -/
theorem Invariant.set (hs : Invariant msgs s) (hc : s.connections[h]? = some c)
    (hc' : EchoClient.Invariant c') (hchain : c'.session.chain = c.session.chain)
    {waiting : List Bytes}
    (hcalls : (EchoServer.calls
      { s with waiting, connections := s.connections.set h c' }).Perm msgs) :
    Invariant msgs { s with waiting, connections := s.connections.set h c' } := by
  refine ⟨hs.loop, ?_, ?_, ?_, ?_, ?_, hcalls⟩
  · rw [List.length_set, hs.length]
  · intro d hd
    rcases List.mem_or_eq_of_mem_set hd with hd | rfl
    · exact hs.connections d hd
    · exact hc'
  · intro h'
    rw [hs.sessions h']
    exact (exists_set_iff (P := fun d => d.session.chain ≠ .idle) hc (by rw [hchain]) h').symm
  · intro h' hpipe
    exact (exists_set_iff (P := fun d => d.session.chain = .idle) hc (by rw [hchain]) h').mpr
      (hs.pipe h' hpipe)
  · intro h' d x hd hx
    by_cases hh : h = h'
    · subst hh
      have hlt := (List.getElem?_eq_some_iff.mp hc).1
      rw [List.getElem?_set_self hlt] at hd
      cases hd
      rw [hchain]
      exact hs.closed h c x hc hx
    · rw [List.getElem?_set_ne hh] at hd
      exact hs.closed h' d x hd hx

theorem Invariant.connect (hs : Invariant msgs s) {s' : State} {i : Nat}
    (hstep : s.connect i h = some s') : Invariant msgs s' := by
  obtain ⟨-, hstep⟩ := Option.ite_none_right_eq_some.mp hstep
  obtain ⟨msg, hmsg, hstep⟩ := Option.bind_eq_some_iff.mp hstep
  obtain ⟨c, c', hc, hconnect, rfl⟩ := atConnection_eq_some hstep
  have hinv := EchoClient.invariant_of_step (hs.connections c (List.mem_of_getElem? hc)) hconnect
  rcases c with ⟨session, _ | call⟩
  · cases hconnect
    refine hs.set hc hinv rfl (List.Perm.trans ?_ hs.calls)
    have hwaiting := perm_cons_eraseIdx hmsg
    have hconnections := filterMap_set_perm (f := fun c : Connection => c.call.map (·.msg))
      (y := ⟨session, some { msg }⟩) hc rfl rfl
    refine (hconnections.append_left _).trans (List.perm_middle.trans ?_)
    exact (hwaiting.append_right (s.refused.map Prod.fst)).append_right _
  · cases hconnect

/-- The loop goes on with the instances and the sessions it has. -/
theorem Invariant.ofLoop (hs : Invariant msgs s) {loop : AcceptLoop.State}
    (hloop : loop.threw = false → AcceptLoop.Invariant loop)
    (h : loop.handles = s.loop.handles ∧ loop.pipe = s.loop.pipe ∧
      loop.sessions = s.loop.sessions) : Invariant msgs { s with loop } := by
  obtain ⟨hhandles, hpipe, hsessions⟩ := h
  exact ⟨hloop, hhandles ▸ hs.length, hs.connections, hsessions ▸ hs.sessions,
    hpipe ▸ hs.pipe, hhandles ▸ hs.closed, hs.calls⟩

theorem Invariant.created (hs : Invariant msgs s) {loop : AcceptLoop.State}
    (hloop : loop.threw = false → AcceptLoop.Invariant loop)
    (hhandles : loop.handles = s.loop.handles.opened true)
    (hsessions : loop.sessions = s.loop.sessions)
    (hpipe : loop.pipe = s.loop.pipe ∨ loop.pipe = some s.loop.handles.length) :
    Invariant msgs (s.created loop) := by
  have hnew : ∀ P : Connection → Prop, ∀ h, (∃ c, (s.created loop).connections[h]? = some c ∧ P c) ↔
      (∃ c, s.connections[h]? = some c ∧ P c) ∨ h = s.loop.handles.length ∧ P {} := by
    intro P h
    rw [State.created, List.getElem?_append, ← hs.length]
    split
    · next hlt =>
        have hne : h ≠ s.connections.length := Nat.ne_of_lt hlt
        simp [hne]
    · next hle =>
        rw [List.getElem?_eq_none (Nat.le_of_not_lt hle), List.getElem?_singleton]
        by_cases hh : h = s.connections.length
        · simp [hh]
        · have hpos : h - s.connections.length ≠ 0 := by omega
          simp [hh, hpos]
  refine ⟨hloop, ?_, ?_, ?_, ?_, ?_, ?_⟩
  · simp [State.created, hhandles, hs.length]
  · intro c hc
    rcases List.mem_append.mp hc with hc | hc
    · exact hs.connections c hc
    · rw [List.mem_singleton.mp hc]
      exact EchoClient.invariant_start
  · intro h
    rw [hnew (·.session.chain ≠ .idle) h]
    change h ∈ loop.sessions ↔ _
    rw [hsessions, hs.sessions h]
    simp
  · intro h hh
    rw [hnew (·.session.chain = .idle) h]
    rcases hpipe with hpipe | hpipe
    · exact .inl (hs.pipe h (hpipe ▸ hh))
    · cases hpipe.symm.trans hh
      exact .inr ⟨rfl, rfl⟩
  · intro h c x hc hx
    change loop.handles[h]? = some x at hx
    rw [hhandles] at hx
    by_cases hh : h = s.loop.handles.length
    · subst hh
      have hc' : c = {} := by
        rw [State.created, ← hs.length, List.getElem?_concat_length] at hc
        exact (Option.some.inj hc).symm
      have hx' : x.closed = false := by
        rw [NamedPipe.Handles.opened, List.concat_eq_append, List.getElem?_concat_length] at hx
        cases hx
        rfl
      rw [hc', hx']
      exact iff_of_false (by decide) (by decide)
    · rw [NamedPipe.getElem?_opened_of_ne hh] at hx
      have hlt : h < s.connections.length := hs.length ▸ (List.getElem?_eq_some_iff.mp hx).1
      rw [State.created, List.getElem?_append_left hlt] at hc
      exact hs.closed h c x hc hx
  · have hcalls : EchoServer.calls (s.created loop) = EchoServer.calls s := by
      simp [EchoServer.calls, State.created]
    rw [hcalls]
    exact hs.calls

/-- The handler of an accept moves the pipe into a session and starts it. -/
theorem Invariant.started (hs : Invariant msgs s) {loop : AcceptLoop.State} {s' : State}
    (hloop : loop.threw = false → AcceptLoop.Invariant loop)
    (hhandles : loop.handles = s.loop.handles) (hpipe : loop.pipe = none)
    (hsessions : loop.sessions = s.loop.sessions ++ [h])
    (hstep : { s with loop }.atConnection h (.session .start) = some s') : Invariant msgs s' := by
  obtain ⟨c, c', hc, hstart, rfl⟩ := atConnection_eq_some hstep
  have hinv := EchoClient.invariant_of_step (hs.connections c (List.mem_of_getElem? hc)) hstart
  obtain ⟨session, hsession, rfl⟩ := Option.map_eq_some_iff.mp hstart
  obtain ⟨hidle, hsession⟩ := Option.ite_none_right_eq_some.mp hsession
  cases hsession
  have hlt := (List.getElem?_eq_some_iff.mp hc).1
  refine ⟨hloop, ?_, ?_, ?_, ?_, ?_, ?_⟩
  · simp [hhandles, hs.length]
  · intro d hd
    rcases List.mem_or_eq_of_mem_set hd with hd | rfl
    · exact hs.connections d hd
    · exact hinv
  · intro h'
    change h' ∈ loop.sessions ↔ _
    rw [hsessions, List.mem_append, List.mem_singleton, hs.sessions h']
    by_cases hh : h = h'
    · subst hh
      rw [List.getElem?_set_self hlt]
      exact iff_of_true (.inr rfl) ⟨_, rfl, by simp [EchoSession.State.doRead]⟩
    · rw [List.getElem?_set_ne hh]
      simp [Ne.symm hh]
  · intro h' hh'
    cases hpipe.symm.trans hh'
  · intro h' d x hd hx
    change loop.handles[h']? = some x at hx
    rw [hhandles] at hx
    by_cases hh : h = h'
    · subst hh
      rw [List.getElem?_set_self hlt] at hd
      cases hd
      refine iff_of_false ?_ (by simp [EchoSession.State.doRead])
      rw [hs.closed h c x hc hx, hidle]
      decide
    · rw [List.getElem?_set_ne hh] at hd
      exact hs.closed h' d x hd hx
  · exact (calls_set (s := s) hc loop { c with session := c.session.doRead } rfl).symm ▸ hs.calls

end Frame

/-- A session that is not begun, or over, has no step but to be started. -/
theorem chain_of_session {s s' : EchoSession.State} {l : EchoSession.Label}
    (hl : EchoClient.ofServer l = true) (hne : l ≠ .start) (h : EchoSession.step s l = some s') :
    s.chain ≠ .idle ∧ s.chain ≠ .ended ∧ s'.chain ≠ .idle := by
  cases EchoSession.stepped_of_step h with
  | start hchain => exact absurd rfl hne
  | readHandler ec length hchain =>
      rw [hchain]
      refine ⟨by simp, by simp, ?_⟩
      simp only [EchoSession.State.readHandler, EchoSession.State.doWrite]
      split
      · split <;> simp
      · simp
  | writeHandler ec hchain =>
      rw [hchain]
      refine ⟨by simp, by simp, ?_⟩
      simp only [EchoSession.State.writeHandler, EchoSession.State.doRead]
      split <;> simp
  | clientWrite m hclient => cases hl
  | clientRead n m ec s' hclient hread => cases hl
  | clientClose => cases hl
  | read m ec rest hchain hread => simp [hchain]
  | readFailed f hchain => simp [hchain]
  | take length hchain => simp [hchain]
  | written length hchain => simp [hchain]
  | writeFailed f length taken hchain => simp [hchain]

theorem chain_of_callStep {c c' : EchoClient.Call} {s s' : EchoSession.State}
    (h : c.step s = some (c', s')) : s'.chain = s.chain ∧ c'.msg = c.msg := by
  rcases c with ⟨msg, written, reply, _ | _ | r⟩
  · dsimp only [EchoClient.Call.step] at h
    split at h
    · cases h
      exact ⟨rfl, rfl⟩
    · cases h
      exact ⟨rfl, rfl⟩
  · dsimp only [EchoClient.Call.step] at h
    split at h
    · cases h
      exact ⟨rfl, rfl⟩
    · obtain ⟨⟨m, ec, t⟩, hread, heq⟩ := Option.map_eq_some_iff.mp h
      obtain ⟨r, -, hr⟩ := Option.map_eq_some_iff.mp hread
      cases hr
      dsimp only at heq
      split at heq
      · cases heq
        exact ⟨rfl, rfl⟩
      · cases heq
        exact ⟨rfl, rfl⟩
  · cases h

theorem chain_of_fail {c c' : EchoClient.Call} {f : Failure} {s s' : EchoSession.State}
    (h : c.fail f s = some (c', s')) : s'.chain = s.chain ∧ c'.msg = c.msg := by
  rw [EchoClient.Call.fail] at h
  split at h
  · cases h
  · cases h
    exact ⟨rfl, rfl⟩

theorem Invariant.session {msgs : List Bytes} {s s' : State} {h : Handle}
    {l : EchoSession.Label} (hs : Invariant msgs s) (hne : l ≠ .start)
    (hstep : (s.atConnection h (.session l)).map (·.release h) = some s') :
    Invariant msgs s' := by
  obtain ⟨t, ht, rfl⟩ := Option.map_eq_some_iff.mp hstep
  obtain ⟨c, c', hc, hcstep, rfl⟩ := atConnection_eq_some ht
  have hinv := EchoClient.invariant_of_step (hs.connections c (List.mem_of_getElem? hc)) hcstep
  obtain ⟨hl, hcstep⟩ := Option.ite_none_right_eq_some.mp hcstep
  obtain ⟨session, hsession, rfl⟩ := Option.map_eq_some_iff.mp hcstep
  obtain ⟨hidle, hover, hidle'⟩ := chain_of_session hl hne hsession
  have hlt := (List.getElem?_eq_some_iff.mp hc).1
  -- all but the handles, which may be closed
  have hrest : ∀ handles : NamedPipe.Handles, handles.length = s.loop.handles.length →
      (s.loop.threw = false → AcceptLoop.Invariant { s.loop with handles }) →
      (∀ (h' : Handle) d x, (s.connections.set h { c with session })[h']? = some d →
        handles[h']? = some x → (x.closed = true ↔ d.session.chain = .ended)) →
      Invariant msgs { s with
        loop := { s.loop with handles }
        connections := s.connections.set h { c with session } } := by
    intro handles hlength hloop hclosed
    refine ⟨hloop, ?_, ?_, ?_, ?_, hclosed, ?_⟩
    · rw [List.length_set, hs.length, hlength]
    · intro d hd
      rcases List.mem_or_eq_of_mem_set hd with hd | rfl
      · exact hs.connections d hd
      · exact hinv
    · intro h'
      rw [exists_set_iff (P := fun d : Connection => d.session.chain ≠ .idle) hc
        (iff_of_true hidle' hidle) h']
      exact hs.sessions h'
    · intro h' hpipe
      rw [exists_set_iff (P := fun d : Connection => d.session.chain = .idle) hc
        (iff_of_false hidle' hidle) h']
      exact hs.pipe h' hpipe
    · exact (calls_set hc _ { c with session } rfl).symm ▸ hs.calls
  have hself : (s.connections.set h { c with session })[h]? = some { c with session } :=
    List.getElem?_set_self hlt
  by_cases hover' : session.chain = .ended
  · have hrelease : ({ s with connections := s.connections.set h { c with session } } :
        State).release h =
        { s with
          loop := { s.loop with handles := s.loop.handles.close h }
          connections := s.connections.set h { c with session } } := by
      simp [State.release, hself, hover']
    rw [hrelease]
    refine hrest _ (NamedPipe.Handles.length_close _ _)
      (fun hthrew => loop_close (hs.loop hthrew) h) ?_
    intro h' d x hd hx
    rw [NamedPipe.Handles.close, List.getElem?_modify] at hx
    obtain ⟨y, hy, rfl⟩ := Option.map_eq_some_iff.mp hx
    by_cases hh : h = h'
    · subst hh
      cases hself.symm.trans hd
      simp [hover']
    · rw [List.getElem?_set_ne hh] at hd
      rw [if_neg hh]
      exact hs.closed h' d y hd hy
  · have hrelease : ({ s with connections := s.connections.set h { c with session } } :
        State).release h = { s with connections := s.connections.set h { c with session } } := by
      simp [State.release, hself, hover']
    rw [hrelease]
    refine hrest s.loop.handles rfl hs.loop ?_
    intro h' d x hd hx
    by_cases hh : h = h'
    · subst hh
      cases hself.symm.trans hd
      rw [hs.closed h c x hc hx]
      exact iff_of_false hover hover'
    · rw [List.getElem?_set_ne hh] at hd
      exact hs.closed h' d x hd hx

theorem Invariant.call {msgs : List Bytes} {s s' : State} {h : Handle} {l : EchoClient.Label}
    (hs : Invariant msgs s) (hstep : s.atConnection h l = some s')
    (hl : ∀ c c' : Connection, c.step l = some c' →
      c'.session.chain = c.session.chain ∧ c'.call.map (·.msg) = c.call.map (·.msg)) :
    Invariant msgs s' := by
  obtain ⟨c, c', hc, hcstep, rfl⟩ := atConnection_eq_some hstep
  obtain ⟨hchain, hmsg⟩ := hl c c' hcstep
  refine hs.set hc (EchoClient.invariant_of_step (hs.connections c (List.mem_of_getElem? hc))
    hcstep) hchain ?_
  exact (calls_set hc s.loop c' hmsg).symm ▸ hs.calls

theorem invariant_of_step {msgs : List Bytes} {s s' : State} {l : Label} (hs : Invariant msgs s)
    (h : step s l = some s') : Invariant msgs s' := by
  cases l with
  | accept error early fConnected lastError =>
      obtain ⟨loop, hloop, h⟩ := Option.bind_eq_some_iff.mp h
      have hinv := loop_of_step hs.loop hloop
      cases error with
      | some f =>
          cases early with
          | none =>
              cases h
              exact hs.ofLoop hinv (loop_of_refused hloop)
          | some i => cases h
      | none =>
          obtain ⟨hhandles, hsessions, hpipe⟩ := loop_of_accept hloop
          have hcreated := hs.created hinv hhandles hsessions hpipe
          cases early with
          | none =>
              cases h
              exact hcreated
          | some i => exact hcreated.connect h
  | complete id error =>
      obtain ⟨loop, hloop, rfl⟩ := Option.map_eq_some_iff.mp h
      exact hs.ofLoop (loop_of_step hs.loop hloop) (loop_of_complete hloop)
  | run id =>
      obtain ⟨loop, hloop, h⟩ := Option.bind_eq_some_iff.mp h
      have hinv := loop_of_step hs.loop hloop
      obtain ⟨hhandles, ⟨hpipe, hsessions⟩ | ⟨hpipe, hsessions⟩⟩ := loop_of_run hloop
      · rw [hsessions, List.drop_length] at h
        cases h
        exact hs.ofLoop hinv ⟨hhandles, hpipe, hsessions⟩
      · rw [hsessions, List.drop_left] at h
        cases hold : s.loop.pipe with
        | none =>
            rw [hold] at h hsessions
            cases h
            exact hs.ofLoop hinv ⟨hhandles, hpipe.trans hold.symm, by simpa using hsessions⟩
        | some hPipe =>
            rw [hold] at h hsessions
            rw [Option.toList_some, List.foldlM_cons] at h
            obtain ⟨t, ht, h⟩ := Option.bind_eq_some_iff.mp h
            cases h
            exact hs.started hinv hhandles hpipe hsessions ht
  | session hPipe l =>
      obtain ⟨hne, h⟩ := Option.ite_none_left_eq_some.mp h
      exact hs.session hne h
  | connect i hPipe => exact hs.connect h
  | refuse i f =>
      obtain ⟨msg, hmsg, rfl⟩ := Option.map_eq_some_iff.mp h
      refine ⟨hs.loop, hs.length, hs.connections, hs.sessions, hs.pipe, hs.closed, ?_⟩
      refine List.Perm.trans (List.Perm.append_right _ ?_) hs.calls
      rw [List.map_append, ← List.append_assoc]
      refine (List.perm_append_singleton _ _).trans ?_
      exact (perm_cons_eraseIdx hmsg).append_right (s.refused.map Prod.fst)
  | call hPipe =>
      refine hs.call h fun c c' hc => ?_
      obtain ⟨call, hcall, hc⟩ := Option.bind_eq_some_iff.mp hc
      obtain ⟨⟨call', session⟩, hcall', rfl⟩ := Option.map_eq_some_iff.mp hc
      obtain ⟨hchain, hmsg⟩ := chain_of_callStep hcall'
      exact ⟨hchain, by simp [hcall, hmsg]⟩
  | fail hPipe f =>
      refine hs.call h fun c c' hc => ?_
      obtain ⟨call, hcall, hc⟩ := Option.bind_eq_some_iff.mp hc
      obtain ⟨⟨call', session⟩, hcall', rfl⟩ := Option.map_eq_some_iff.mp hc
      obtain ⟨hchain, hmsg⟩ := chain_of_fail hcall'
      exact ⟨hchain, by simp [hcall, hmsg]⟩

theorem invariant_start (msgs : List Bytes) : Invariant msgs (start msgs) := by
  refine ⟨fun _ => ⟨.calling rfl rfl, .nil, ?_⟩, rfl, ?_, ?_, ?_, ?_, ?_⟩
  · intro h x hx
    cases hx
  · intro c hc
    cases hc
  · intro h
    simp [start]
  · intro h hpipe
    cases hpipe
  · intro h c x hc
    cases hc
  · simp [calls, start]

/-- Every call waits, was turned away, or has a pipe instance of its own. It gets
an error or its own message back, whatever the other calls send. -/
structure Serves (msgs : List Bytes) (s : State) : Prop where
  calls : (calls s).Perm msgs
  own : ∀ c ∈ s.connections, ∀ call ∈ c.call, ∀ r, call.phase = .returned r →
    (∃ f, r = .failed f) ∨ r = .replied call.msg
  echoes : ∀ c ∈ s.connections, EchoSession.Echoes c.session

theorem echoServer_serves (msgs : List Bytes) (labels : List Label) :
    system.AllStates (Serves msgs) (start msgs) labels := by
  refine System.AllStates.of_invariant (I := Invariant msgs) (fun _ _ _ hs => invariant_of_step hs)
    (fun s hs => ⟨hs.calls, ?_, ?_⟩) (invariant_start msgs) labels
  · intro c hc call hcall r hr
    have hagrees := (hs.connections c hc).call
    rw [hcall] at hagrees
    exact hagrees.returned r hr
  · intro c hc
    exact (hs.connections c hc).session.toEchoes

/-- A handle is closed when its session is over and not before; as long as
`do_accept` has not thrown, an open one belongs to the pipe that waits for a
client or to a session that goes on. -/
structure Owns (s : State) : Prop where
  closed : ∀ (h : Handle) c x, s.connections[h]? = some c → s.loop.handles[h]? = some x →
    (x.closed = true ↔ c.session.chain = .ended)
  owned : s.loop.threw = false → ∀ h x, s.loop.handles[h]? = some x → x.closed = false →
    s.loop.pipe = some h ∨ ∃ c, s.connections[h]? = some c ∧
      c.session.chain ≠ .idle ∧ c.session.chain ≠ .ended

theorem echoServer_owns (msgs : List Bytes) (labels : List Label) :
    system.AllStates Owns (start msgs) labels := by
  refine System.AllStates.of_invariant (I := Invariant msgs) (fun _ _ _ hs => invariant_of_step hs)
    (fun s hs => ⟨hs.closed, ?_⟩) (invariant_start msgs) labels
  intro hthrew h x hx hopen
  rcases (hs.loop hthrew).owned h x hx with hpipe | hsession
  · exact .inl hpipe
  · obtain ⟨c, hc, hidle⟩ := (hs.sessions h).mp hsession
    refine .inr ⟨c, hc, hidle, fun hover => ?_⟩
    have hclosed := (hs.closed h c x hc hx).mpr hover
    cases hopen.symm.trans hclosed

end Winasio.EchoServer
