import Winasio.EchoSession

/-!
`make_client_call`: a client of the echo server, which connects, writes one
message and reads as many bytes back.
-/

namespace Winasio.EchoClient

open Winasio.Transition
open Winasio.EchoSession (maxLength)

/-- How many bytes asio asks for at a time where a whole buffer is to be
transferred. -/
def defaultMaxTransferSize : Nat := 65536

/-- What the call comes back with. It is `overread` if the string of the reply is
made out of more characters than were read. -/
inductive Result where
  | failed (f : Failure)
  | replied (replyMsg : Bytes)
  | overread
  deriving DecidableEq

inductive Phase where
  | writing
  | reading
  | returned (result : Result)
  deriving DecidableEq

/-- A call with its pipe open; `reply` is the array as far as it was read. -/
structure Call where
  msg : Bytes
  written : Nat := 0
  reply : Bytes := []
  phase : Phase := .writing
  deriving DecidableEq

namespace Call

/-- `net::buffer(reply, msg.length())` is no longer than the array. -/
def room (c : Call) : Nat := min maxLength c.msg.length - c.reply.length

def chunk (c : Call) : Bytes := (c.msg.drop c.written).take defaultMaxTransferSize

def result (c : Call) : Result :=
  if c.msg.length ≤ c.reply.length then .replied (c.reply.take c.msg.length) else .overread

/-- The next step of the call, on the pipe: a `write_some` of `net::write`, a
`read_some` of `net::read`, or the end of one of them. The pipe is closed when
the call returns. -/
def step (c : Call) (s : EchoSession.State) : Option (Call × EchoSession.State) :=
  match c.phase with
  | .writing =>
      if c.written < c.msg.length then
        some ({ c with written := c.written + c.chunk.length }, s.clientWrite c.chunk)
      else some ({ c with phase := .reading }, s)
  | .reading =>
      if c.room = 0 then some ({ c with phase := .returned c.result }, s.clientClose)
      else
        (s.clientRead (min c.room defaultMaxTransferSize)).map fun (m, ec, s) =>
          if hec : ec.failed then
            ({ c with reply := c.reply ++ m, phase := .returned (.failed ⟨ec, hec⟩) },
              s.clientClose)
          else ({ c with reply := c.reply ++ m }, s)
  | .returned _ => none

/-- The operation the call waits for fails. -/
def fail (c : Call) (f : Failure) (s : EchoSession.State) : Option (Call × EchoSession.State) :=
  match c.phase with
  | .returned _ => none
  | _ => some ({ c with phase := .returned (.failed f) }, s.clientClose)

end Call

/-- A pipe instance: the session at its end and the call that has connected to
it, if there is one. -/
structure Connection where
  session : EchoSession.State := {}
  call : Option Call := none
  deriving DecidableEq

/-- The steps of the session and of the kernel, a client connecting, and the
steps of its call. -/
inductive Label where
  | session (l : EchoSession.Label)
  | connect (msg : Bytes)
  | call
  | fail (f : Failure)

/-- Whether it is a step of the server's end of the pipe. -/
def ofServer : EchoSession.Label → Bool
  | .clientWrite _ | .clientRead _ | .clientClose => false
  | _ => true

namespace Connection

def step (c : Connection) : Label → Option Connection
  | .session l =>
      if ofServer l then (EchoSession.step c.session l).map fun session => { c with session }
      else none
  | .connect msg =>
      match c.call with
      | none => some { c with call := some { msg } }
      | some _ => none
  | .call =>
      c.call.bind fun call =>
        (call.step c.session).map fun (call, session) => ⟨session, some call⟩
  | .fail f =>
      c.call.bind fun call =>
        (call.fail f c.session).map fun (call, session) => ⟨session, some call⟩

end Connection

def system : System Connection Label := ⟨Connection.step⟩

/-- The call has sent a part of its message, the longest first piece of it in
one, has kept what it received, and comes back with an error or its own message. -/
structure Agrees (c : Call) (s : EchoSession.State) : Prop where
  sent : s.sent.flatten = c.msg.take c.written
  first : ∀ m ∈ s.sent.head?, m = c.msg.take defaultMaxTransferSize
  received : s.received = c.reply
  returned : ∀ r, c.phase = .returned r → (∃ f, r = .failed f) ∨ r = .replied c.msg

structure Invariant (c : Connection) : Prop where
  session : EchoSession.Invariant c.session
  call : match c.call with
    | none => c.session.sent = [] ∧ c.session.received = []
    | some call => Agrees call c.session

/-- The server's end of the pipe keeps apart from the client's. -/
theorem frame_of_ofServer {s s' : EchoSession.State} {l : EchoSession.Label}
    (hl : ofServer l = true) (h : EchoSession.step s l = some s') :
    s'.sent = s.sent ∧ s'.received = s.received ∧ s'.client = s.client := by
  cases EchoSession.stepped_of_step h with
  | readHandler ec length hchain =>
      cases hec : ec.failed <;> simp [EchoSession.State.readHandler, hec, EchoSession.State.doWrite]
  | writeHandler ec hchain =>
      cases hec : ec.failed <;> simp [EchoSession.State.writeHandler, hec, EchoSession.State.doRead]
  | clientWrite m hclient => cases hl
  | clientRead n m ec s' hclient hread => cases hl
  | clientClose => cases hl
  | _ => exact ⟨rfl, rfl, rfl⟩

theorem Agrees.congr {c : Call} {s s' : EchoSession.State} (h : Agrees c s)
    (hsent : s'.sent = s.sent) (hreceived : s'.received = s.received) : Agrees c s' :=
  ⟨hsent ▸ h.sent, hsent ▸ h.first, hreceived ▸ h.received, h.returned⟩

theorem Agrees.write {c : Call} {s : EchoSession.State} (h : Agrees c s)
    (hphase : c.phase = .writing) (hwritten : c.written < c.msg.length) :
    Agrees { c with written := c.written + c.chunk.length } (s.clientWrite c.chunk) := by
  refine ⟨?_, ?_, h.received, fun r hr => by cases hphase.symm.trans hr⟩
  · change (s.sent ++ [c.chunk]).flatten = _
    rw [List.flatten_append, h.sent, List.take_add, List.flatten_singleton]
    congr 1
    rw [Call.chunk, List.length_take, ← List.take_eq_take_min]
  · intro m hm
    cases hsent : s.sent with
    | nil =>
        have hnone : c.written = 0 := by
          have hempty := h.sent
          rw [hsent] at hempty
          have hlength := congrArg List.length hempty
          simp only [List.flatten_nil, List.length_nil, List.length_take] at hlength
          omega
        simp only [EchoSession.State.clientWrite, hsent, List.nil_append, List.head?_cons,
          Option.mem_some] at hm
        rw [← hm, Call.chunk, hnone, List.drop_zero]
    | cons m' ms =>
        have hfirst := h.first m' (by simp [hsent])
        simp only [EchoSession.State.clientWrite, hsent, List.cons_append, List.head?_cons,
          Option.mem_some] at hm
        rw [← hm, hfirst]

/-- The session writes nothing back if the first piece of the message is too
long for its buffer. -/
theorem echoed_eq_nil {c : Call} {s : EchoSession.State} (hs : EchoSession.Echoes s)
    (h : Agrees c s) (hlong : maxLength < c.msg.length) : s.echoed = [] := by
  cases hechoed : s.echoed with
  | nil => rfl
  | cons m ms =>
      exfalso
      obtain ⟨rest, hrest⟩ := hs.echoed
      rw [hechoed] at hrest
      cases hsent : s.sent with
      | nil =>
          rw [hsent] at hrest
          cases hrest
      | cons m' ms' =>
          have hfirst := h.first m' (by simp [hsent])
          have hlength : maxLength < m'.length := by
            rw [hfirst, List.length_take]
            exact Nat.lt_min.mpr ⟨by decide, hlong⟩
          have hne : m' ≠ [] := List.ne_nil_of_length_pos (Nat.zero_lt_of_lt hlength)
          rw [hsent, EchoSession.messages, List.filter_cons_of_pos (by simpa using hne)] at hrest
          have hfits := hs.fits m (by simp [hechoed])
          rw [(List.cons.inj hrest).1] at hfits
          omega

/-- What the call has read, and what is still in the pipe for it, is a beginning
of its message. -/
theorem replies_isPrefix {c : Call} {s : EchoSession.State} (hs : EchoSession.Echoes s)
    (h : Agrees c s) : c.reply ++ s.replies.flatten <+: c.msg := by
  have hechoed : s.echoed.flatten <+: s.sent.flatten := by
    obtain ⟨rest, hrest⟩ := hs.echoed
    exact ⟨rest.flatten, by
      rw [← List.flatten_append, hrest, EchoSession.flatten_messages]⟩
  have hsent : s.sent.flatten <+: c.msg := h.sent ▸ List.take_prefix _ _
  rw [← h.received, hs.received]
  exact hechoed.trans hsent

theorem result_eq {c : Call} {s : EchoSession.State} (hs : EchoSession.Echoes s)
    (h : Agrees c s) (hroom : c.room = 0) : c.result = .replied c.msg := by
  have hlength : min maxLength c.msg.length ≤ c.reply.length := by
    rw [Call.room] at hroom
    omega
  by_cases hlong : maxLength < c.msg.length
  · exfalso
    have hreceived := hs.received
    rw [echoed_eq_nil hs h hlong, h.received, List.flatten_nil, List.append_eq_nil_iff] at hreceived
    rw [hreceived.1, List.length_nil, Nat.min_eq_left (Nat.le_of_lt hlong)] at hlength
    exact absurd hlength (by decide)
  · rw [Nat.min_eq_right (Nat.le_of_not_lt hlong)] at hlength
    have hreply : c.reply = c.msg := ((List.prefix_append _ _).trans
      (replies_isPrefix hs h)).eq_of_length_le hlength
    rw [Call.result, if_pos hlength, hreply, List.take_length]

theorem invariant_of_callStep {c c' : Call} {s s' : EchoSession.State}
    (hs : EchoSession.Invariant s) (h : Agrees c s) (hstep : c.step s = some (c', s')) :
    EchoSession.Invariant s' ∧ Agrees c' s' := by
  rcases c with ⟨msg, written, reply, _ | _ | r⟩
  · dsimp only [Call.step] at hstep
    split at hstep
    · next hwritten =>
        cases hstep
        exact ⟨hs.clientWrite _, h.write rfl hwritten⟩
    · cases hstep
      exact ⟨hs, h.sent, h.first, h.received, fun r hr => by cases hr⟩
  · dsimp only [Call.step] at hstep
    split at hstep
    · next hroom =>
        cases hstep
        refine ⟨hs.clientClose, h.sent, h.first, h.received, ?_⟩
        rintro r ⟨⟩
        exact .inr (result_eq hs.toEchoes h hroom)
    · obtain ⟨⟨m, ec, t⟩, hread, heq⟩ := Option.map_eq_some_iff.mp hstep
      have ht := hs.clientRead hread
      obtain ⟨r, -, hr⟩ := Option.map_eq_some_iff.mp hread
      cases hr
      dsimp only at heq
      split at heq
      · cases heq
        refine ⟨ht.clientClose, h.sent, h.first, congrArg (· ++ _) h.received, ?_⟩
        rintro r' ⟨⟩
        exact .inl ⟨_, rfl⟩
      · cases heq
        exact ⟨ht, h.sent, h.first, congrArg (· ++ _) h.received, fun r hr => by cases hr⟩
  · cases hstep

theorem invariant_of_fail {c c' : Call} {f : Failure} {s s' : EchoSession.State}
    (hs : EchoSession.Invariant s) (h : Agrees c s) (hstep : c.fail f s = some (c', s')) :
    EchoSession.Invariant s' ∧ Agrees c' s' := by
  rw [Call.fail] at hstep
  split at hstep
  · cases hstep
  · cases hstep
    refine ⟨hs.clientClose, h.sent, h.first, h.received, ?_⟩
    rintro r ⟨⟩
    exact .inl ⟨f, rfl⟩

theorem invariant_of_step {c c' : Connection} {l : Label} (hc : Invariant c)
    (h : c.step l = some c') : Invariant c' := by
  cases l with
  | session l =>
      obtain ⟨hl, h⟩ := Option.ite_none_right_eq_some.mp h
      obtain ⟨s', hs', rfl⟩ := Option.map_eq_some_iff.mp h
      obtain ⟨hsent, hreceived, -⟩ := frame_of_ofServer hl hs'
      refine ⟨EchoSession.invariant_of_step hc.session hs', ?_⟩
      have hcall := hc.call
      revert hcall
      cases c.call with
      | none => exact fun hnone => ⟨hsent.trans hnone.1, hreceived.trans hnone.2⟩
      | some call => exact fun hcall => hcall.congr hsent hreceived
  | connect msg =>
      rcases c with ⟨s, _ | call⟩
      · cases h
        obtain ⟨hsent, hreceived⟩ := hc.call
        refine ⟨hc.session, ?_, ?_, hreceived, fun r hr => by cases hr⟩
        · rw [hsent]
          rfl
        · intro m hm
          rw [hsent] at hm
          cases hm
      · cases h
  | call =>
      obtain ⟨call, hcall, h⟩ := Option.bind_eq_some_iff.mp h
      obtain ⟨⟨call', s'⟩, hstep, rfl⟩ := Option.map_eq_some_iff.mp h
      have hagrees := hc.call
      rw [hcall] at hagrees
      obtain ⟨hs', hagrees'⟩ := invariant_of_callStep hc.session hagrees hstep
      exact ⟨hs', hagrees'⟩
  | fail f =>
      obtain ⟨call, hcall, h⟩ := Option.bind_eq_some_iff.mp h
      obtain ⟨⟨call', s'⟩, hstep, rfl⟩ := Option.map_eq_some_iff.mp h
      have hagrees := hc.call
      rw [hcall] at hagrees
      obtain ⟨hs', hagrees'⟩ := invariant_of_fail hc.session hagrees hstep
      exact ⟨hs', hagrees'⟩

theorem invariant_start : Invariant {} := ⟨EchoSession.invariant_start, rfl, rfl⟩

end Winasio.EchoClient
