import Winasio.EchoServer

/-!
The echo server answers: where nothing fails and no message is longer than its
buffer, every call comes back with its own message after a bounded number of
steps, in whatever order they are taken.
-/

namespace Winasio.EchoProgress

open Winasio.Transition
open Winasio.Components
open Winasio.NamedPipe (Handle)
open Winasio.EchoSession (maxLength)
open Winasio.EchoClient (Connection)
open Winasio.EchoServer

/-- `ERROR_BROKEN_PIPE`. -/
def errorBrokenPipe : UInt32 := 109

/-- A read finds that the client has gone only after the last message. -/
def calmSession (c : Connection) : EchoSession.Label → Bool
  | .read (some f) =>
      f.val.value = errorBrokenPipe && !c.session.client && c.session.requests.isEmpty
  | .write (some _) => false
  | _ => true

/-- The client that the pending connect waits for has come. -/
def clientCame (s : State) : Bool := (s.loop.pipe.bind (s.connections[·]?)).any (·.call.isSome)

/-- The steps of a server and of clients on whom nothing fails. A connect that
is pending completes when a client has come, and `ConnectNamedPipe` says whether
one came early. -/
def calm (s : State) : Label → Bool
  | .accept error early fConnected lastError =>
      error.isNone && !fConnected &&
        lastError = (if early.isSome then NamedPipe.errorPipeConnected else ErrorCode.ioPending)
  | .complete _ error => error.isNone && clientCame s
  | .session h l => (s.connections[h]?).all fun c => calmSession c l
  | .refuse _ _ | .fail _ _ => false
  | .run _ | .connect _ _ | .call _ => true

def calmSystem : System State Label := ⟨fun s l => if calm s l then step s l else none⟩

def Answered (c : Connection) : Prop := ∀ call ∈ c.call, call.phase = .returned (.replied call.msg)

/-- Every one of the calls has come back, with its own message. -/
def AllAnswered (msgs : List Bytes) (s : State) : Prop :=
  (s.connections.filterMap fun c => c.call.map (·.msg)).Perm msgs ∧
    ∀ c ∈ s.connections, Answered c

/-- A connection on which nothing has failed. -/
structure Calm (c : Connection) : Prop where
  unused : c.call = none → c.session.client = true
  small : ∀ call ∈ c.call, call.msg.length ≤ maxLength
  requests : ∀ m ∈ c.session.requests, m.length ≤ maxLength
  replies : ∀ m ∈ c.session.replies, m ≠ []
  goesOn : c.session.chain.live = true ∨ c.session.client = false
  client : c.session.client = false → Answered c
  written : ∀ call ∈ c.call, call.phase ≠ .writing → call.msg.length ≤ call.written
  returned : ∀ call ∈ c.call, ∀ r, call.phase = .returned r → r = .replied call.msg

/-- How many steps the session can still take with what it was sent. -/
def chainWeight (s : EchoSession.State) : Nat :=
  6 * s.requests.length +
    match s.chain with
    | .idle => 4
    | .reading => 3
    | .read ec _ => if ec.failed then 1 else 8
    | .writing _ taken => if taken then 6 else 7
    | .written ec => if ec.failed then 1 else 5
    | .ended => 0

def callWeight (c : EchoClient.Call) : Nat :=
  match c.phase with
  | .writing => 8 * (c.msg.length - c.written) + (c.msg.length - c.reply.length) + 3
  | .reading => c.room + 2
  | .returned _ => 0

def weight (c : Connection) : Nat :=
  chainWeight c.session + (c.call.map callWeight).getD 0

def loopWeight (s : State) : Nat :=
  if s.loop.calling then 6
  else
    match s.loop.waiting with
    | (_, none) :: _ => if clientCame s then 8 else 1
    | _ => 7

theorem loopWeight_of_calling {s : State} (h : s.loop.calling = true) : loopWeight s = 6 := if_pos h

theorem loopWeight_of_pending {s : State} {id : Nat} (h : s.loop.calling = false)
    (hwaiting : s.loop.waiting = [(id, none)]) :
    loopWeight s = if clientCame s then 8 else 1 := by
  simp [loopWeight, h, hwaiting]

theorem loopWeight_of_posted {s : State} {id : Nat} {ec : ErrorCode} (h : s.loop.calling = false)
    (hwaiting : s.loop.waiting = [(id, some ec)]) : loopWeight s = 7 := by
  simp [loopWeight, h, hwaiting]

def waitingWeight (msg : Bytes) : Nat := 9 * msg.length + 11

def restWeight (s : State) : Nat :=
  (s.waiting.map waitingWeight).sum + (s.connections.map weight).sum

def systemWeight (s : State) : Nat := loopWeight s + restWeight s

theorem chainWeight_lt {s s' : EchoSession.State} {l : EchoSession.Label}
    (hl : EchoClient.ofServer l = true) (h : EchoSession.step s l = some s') :
    chainWeight s' < chainWeight s := by
  cases EchoSession.stepped_of_step h with
  | start hchain => simp [chainWeight, hchain, EchoSession.State.doRead]
  | read m ec rest hchain hread =>
      cases hec : ec.failed with
      | false =>
          obtain ⟨hrequests, -⟩ := EchoSession.readMessage_success hread hec
          simp only [chainWeight, hchain, hec, hrequests, List.length_cons, Bool.false_eq_true,
            if_false]
          omega
      | true =>
          have hlength := EchoSession.length_of_readMessage hread
          simp only [chainWeight, hchain, hec, if_true]
          omega
  | readFailed f hchain => simp [chainWeight, hchain]
  | take length hchain => simp [chainWeight, hchain]
  | written length hchain => simp [chainWeight, hchain]
  | writeFailed f length taken hchain => cases taken <;> simp [chainWeight, hchain]
  | readHandler ec length hchain =>
      cases hec : ec.failed with
      | true => simp [chainWeight, hchain, hec, EchoSession.State.readHandler]
      | false =>
          by_cases hlength : length = 0 <;>
            simp [chainWeight, hchain, hec, hlength, EchoSession.State.readHandler,
              EchoSession.State.doWrite]
  | writeHandler ec hchain =>
      cases hec : ec.failed <;>
        simp [chainWeight, hchain, hec, EchoSession.State.writeHandler, EchoSession.State.doRead]
  | clientWrite m hclient => cases hl
  | clientRead n m ec s' hclient hread => cases hl
  | clientClose => cases hl

theorem requests_of_session {s s' : EchoSession.State} {l : EchoSession.Label}
    (hl : EchoClient.ofServer l = true) (h : EchoSession.step s l = some s')
    (hs : ∀ m ∈ s.requests, m.length ≤ maxLength) : ∀ m ∈ s'.requests, m.length ≤ maxLength := by
  cases EchoSession.stepped_of_step h with
  | read m ec rest hchain hread =>
      have hec : ec.failed = false :=
        (EchoSession.failed_readMessage hread).mpr fun m hm => hs m (List.mem_of_mem_head? hm)
      obtain ⟨hrequests, -⟩ := EchoSession.readMessage_success hread hec
      intro m' hm'
      exact hs m' (by rw [hrequests]; exact List.mem_cons_of_mem _ hm')
  | readHandler ec length hchain =>
      cases hec : ec.failed <;>
        simpa [EchoSession.State.readHandler, hec, EchoSession.State.doWrite] using hs
  | writeHandler ec hchain =>
      cases hec : ec.failed <;>
        simpa [EchoSession.State.writeHandler, hec, EchoSession.State.doRead] using hs
  | clientWrite m hclient => cases hl
  | clientRead n m ec s' hclient hread => cases hl
  | clientClose => cases hl
  | _ => exact hs

theorem replies_of_session {s s' : EchoSession.State} {l : EchoSession.Label}
    (hl : EchoClient.ofServer l = true) (hinv : EchoSession.Invariant s)
    (h : EchoSession.step s l = some s') (hs : ∀ m ∈ s.replies, m ≠ []) :
    ∀ m ∈ s'.replies, m ≠ [] := by
  cases EchoSession.stepped_of_step h with
  | take length hchain =>
      have hbuffered := hinv.buffered
      simp only [EchoSession.Buffered, hchain] at hbuffered
      intro m hm
      rcases List.mem_append.mp hm with hm | hm
      · exact hs m hm
      · rw [List.mem_singleton.mp hm]
        apply List.ne_nil_of_length_pos
        rw [List.length_take_of_le hbuffered.2.1]
        exact Nat.pos_of_ne_zero hbuffered.1
  | readHandler ec length hchain =>
      cases hec : ec.failed <;>
        simpa [EchoSession.State.readHandler, hec, EchoSession.State.doWrite] using hs
  | writeHandler ec hchain =>
      cases hec : ec.failed <;>
        simpa [EchoSession.State.writeHandler, hec, EchoSession.State.doRead] using hs
  | clientWrite m hclient => cases hl
  | clientRead n m ec s' hclient hread => cases hl
  | clientClose => cases hl
  | _ => exact hs

/-- A step at the server's end of a pipe. -/
theorem calm_session {c : Connection} {s' : EchoSession.State} {l : EchoSession.Label}
    (hinv : EchoClient.Invariant c) (hc : Calm c) (hl : EchoClient.ofServer l = true)
    (hcalm : calmSession c l = true) (h : EchoSession.step c.session l = some s') :
    Calm { c with session := s' } ∧ weight { c with session := s' } < weight c := by
  obtain ⟨-, -, hclient⟩ := EchoClient.frame_of_ofServer hl h
  refine ⟨⟨fun hnone => hclient.trans (hc.unused hnone), hc.small, requests_of_session hl h hc.requests,
    replies_of_session hl hinv.session h hc.replies, ?_, ?_, hc.written, hc.returned⟩,
    Nat.add_lt_add_right (chainWeight_lt hl h) _⟩
  · change s'.chain.live = true ∨ s'.client = false
    rw [hclient]
    rcases hc.goesOn with hlive | hgone
    · rw [EchoSession.live_iff_of_step hlive h]
      match l, hcalm with
      | .read none, _ => exact .inl fun m hm => hc.requests m (List.mem_of_mem_head? hm)
      | .read (some f), hcalm =>
          simp only [calmSession, Bool.and_eq_true, Bool.not_eq_true'] at hcalm
          exact .inr hcalm.1.2
      | .start, _ | .take, _ | .write none, _ | .run, _ => exact .inl trivial
    · exact .inr hgone
  · intro hgone
    exact hc.client (hclient ▸ hgone)

theorem length_chunk_pos {c : EchoClient.Call} (h : c.written < c.msg.length) :
    0 < c.chunk.length ∧ c.chunk.length ≤ c.msg.length - c.written := by
  rw [EchoClient.Call.chunk, List.length_take, List.length_drop, EchoClient.defaultMaxTransferSize]
  omega

/-- The message the call reads next fits into the room it has left. -/
theorem clientRead_fits {c : EchoClient.Call} {s t : EchoSession.State}
    (hs : EchoSession.Echoes s) (h : EchoClient.Agrees c s) (hsmall : c.msg.length ≤ maxLength)
    (hreplies : ∀ m ∈ s.replies, m ≠ []) {m : Bytes} {ec : ErrorCode}
    (hread : s.clientRead (min c.room EchoClient.defaultMaxTransferSize) = some (m, ec, t)) :
    ec.failed = false ∧ 0 < m.length ∧ m.length ≤ c.room ∧
      t = { s with replies := t.replies, received := s.received ++ m } ∧
      ∀ m ∈ t.replies, m ≠ [] := by
  obtain ⟨⟨m', ec', rest⟩, hmessage, heq⟩ := Option.map_eq_some_iff.mp hread
  cases heq
  have hroom : ∀ x ∈ s.replies.head?, x.length ≤ min c.room EchoClient.defaultMaxTransferSize := by
    intro x hx
    obtain ⟨rest, hrest⟩ := List.head?_eq_some_iff.mp hx
    have hlength := (EchoClient.replies_isPrefix hs h).length_le
    rw [hrest, List.flatten_cons, List.length_append, List.length_append] at hlength
    have hmax : maxLength ≤ EchoClient.defaultMaxTransferSize := by decide
    rw [EchoClient.Call.room]
    omega
  have hec := (EchoSession.failed_readMessage hmessage).mpr hroom
  obtain ⟨hrest, hle⟩ := EchoSession.readMessage_success hmessage hec
  refine ⟨hec, ?_, Nat.le_trans hle (Nat.min_le_left _ _), rfl, ?_⟩
  · exact List.length_pos_iff.mpr (hreplies m (by simp [hrest]))
  · intro x hx
    exact hreplies x (by rw [hrest]; exact List.mem_cons_of_mem _ hx)

/-- A step of a call. -/
theorem calm_call {c c' : Connection} (hinv : EchoClient.Invariant c) (hc : Calm c)
    (h : c.step .call = some c') : Calm c' ∧ weight c' < weight c := by
  obtain ⟨call, hcall, h⟩ := Option.bind_eq_some_iff.mp h
  obtain ⟨⟨call', s'⟩, hstep, rfl⟩ := Option.map_eq_some_iff.mp h
  rcases c with ⟨s, _⟩
  cases hcall
  have hagrees := hinv.call
  have hsmall : call.msg.length ≤ maxLength := hc.small call rfl
  -- the pipe is open until the call returns
  have hopen : (∀ r, call.phase ≠ .returned r) → s.client = true := by
    intro hne
    rw [← Bool.not_eq_false]
    exact fun hgone => hne _ (hc.client hgone call rfl)
  rcases call with ⟨msg, written, reply, _ | _ | r⟩
  · have hclient := hopen (by simp)
    have hlive : s.chain.live = true := hc.goesOn.resolve_right (by simp [hclient])
    dsimp only [EchoClient.Call.step] at hstep
    split at hstep
    · next hwritten =>
        obtain ⟨hpos, hle⟩ := length_chunk_pos (c := ⟨msg, written, reply, .writing⟩) hwritten
        cases hstep
        refine ⟨⟨by simp, by simpa using hsmall, ?_, hc.replies, .inl hlive, ?_, by simp, by simp⟩, ?_⟩
        · intro m hm
          rcases List.mem_append.mp hm with hm | hm
          · exact hc.requests m hm
          · rw [List.mem_singleton.mp hm]
            dsimp only at hle hsmall
            omega
        · intro hgone
          cases hclient.symm.trans hgone
        · simp only [weight, chainWeight, callWeight, EchoSession.State.clientWrite,
            List.length_append, List.length_singleton, Option.map_some, Option.getD_some]
          omega
    · next hwritten =>
        cases hstep
        refine ⟨⟨by simp, by simpa using hsmall, hc.requests, hc.replies, .inl hlive, ?_, ?_, by simp⟩, ?_⟩
        · intro hgone
          cases hclient.symm.trans hgone
        · simpa using Nat.le_of_not_lt hwritten
        · simp only [weight, callWeight, EchoClient.Call.room, Option.map_some, Option.getD_some]
          omega
  · have hclient := hopen (by simp)
    have hlive : s.chain.live = true := hc.goesOn.resolve_right (by simp [hclient])
    have hwritten : msg.length ≤ written := hc.written _ rfl (by simp)
    dsimp only [EchoClient.Call.step] at hstep
    split at hstep
    · next hroom =>
        have hresult := EchoClient.result_eq hinv.session.toEchoes hagrees hroom
        cases hstep
        refine ⟨⟨by simp, by simpa using hsmall, hc.requests, hc.replies, .inr rfl, ?_, ?_, ?_⟩, ?_⟩
        · rintro - call ⟨⟩
          rw [hresult]
        · simpa using hwritten
        · rintro call ⟨⟩ r ⟨⟩
          exact hresult
        · simp only [weight, chainWeight, callWeight, EchoSession.State.clientClose,
            Option.map_some, Option.getD_some]
          omega
    · obtain ⟨⟨m, ec, t⟩, hread, heq⟩ := Option.map_eq_some_iff.mp hstep
      obtain ⟨hec, hpos, hle, ht, hreplies⟩ :=
        clientRead_fits hinv.session.toEchoes hagrees hsmall hc.replies hread
      simp only [hec, Bool.false_eq_true, dite_false] at heq
      cases heq
      rw [ht]
      refine ⟨⟨by simp, by simpa using hsmall, hc.requests, hreplies, .inl hlive, ?_, ?_, by simp⟩, ?_⟩
      · intro hgone
        cases hclient.symm.trans hgone
      · simpa using hwritten
      · simp only [weight, chainWeight, callWeight, EchoClient.Call.room, List.length_append,
          Option.map_some, Option.getD_some] at hle ⊢
        omega
  · cases hstep

theorem exists_readMessage {ms : List Bytes} (n : Nat) (hms : ms ≠ []) :
    ∃ x, EchoSession.readMessage n ms = some x := by
  obtain ⟨m, rest, rfl⟩ := List.exists_cons_of_ne_nil hms
  rw [EchoSession.readMessage]
  split
  · exact ⟨_, rfl⟩
  · exact ⟨_, rfl⟩

/-- A session goes on unless it waits for a message. -/
theorem session_progress {c : Connection} (hlive : c.session.chain.live = true) :
    (c.session.chain = .idle ∨
      ∃ l, l ≠ .start ∧ calmSession c l = true ∧ ∃ c', c.step (.session l) = some c') ∨
      c.session.chain = .reading ∧ c.session.requests = [] := by
  cases hchain : c.session.chain with
  | idle => exact .inl (.inl rfl)
  | reading =>
      by_cases hrequests : c.session.requests = []
      · exact .inr ⟨rfl, hrequests⟩
      · obtain ⟨x, hx⟩ := exists_readMessage maxLength hrequests
        refine .inl (.inr ⟨.read none, by simp, rfl, ?_⟩)
        simp [Connection.step, EchoClient.ofServer, EchoSession.step, hchain, hx]
  | read ec length =>
      refine .inl (.inr ⟨.run, by simp, rfl, ?_⟩)
      simp [Connection.step, EchoClient.ofServer, EchoSession.step, hchain]
  | writing length taken =>
      cases taken with
      | false =>
          refine .inl (.inr ⟨.take, by simp, rfl, ?_⟩)
          simp [Connection.step, EchoClient.ofServer, EchoSession.step, hchain]
      | true =>
          refine .inl (.inr ⟨.write none, by simp, rfl, ?_⟩)
          simp [Connection.step, EchoClient.ofServer, EchoSession.step, hchain]
  | written ec =>
      refine .inl (.inr ⟨.run, by simp, rfl, ?_⟩)
      simp [Connection.step, EchoClient.ofServer, EchoSession.step, hchain]
  | ended =>
      rw [hchain] at hlive
      cases hlive

/-- If the session waits for a message and nothing is in the pipe, all that was
sent has been received. -/
theorem received_eq_sent {s : EchoSession.State} (hs : EchoSession.Echoes s)
    (hchain : s.chain = .reading) (hrequests : s.requests = []) (hreplies : s.replies = []) :
    s.received = s.sent.flatten := by
  have hcomplete := hs.complete (by rw [hchain]; rfl)
  have hreceived := hs.received
  simp only [EchoSession.holding, hchain, hrequests] at hcomplete
  rw [hreplies, List.flatten_nil, List.append_nil] at hreceived
  calc s.received = s.echoed.flatten := hreceived
    _ = (EchoSession.messages s.sent).flatten := by
        rw [← hcomplete, show EchoSession.messages [] = [] from rfl, List.append_nil,
          List.append_nil]
    _ = s.sent.flatten := EchoSession.flatten_messages _

/-- As long as the call has not come back one end of its pipe can go on, unless
the session has yet to be started. -/
theorem calm_progress {c : Connection} {call : EchoClient.Call} (hinv : EchoClient.Invariant c)
    (hc : Calm c) (hcall : c.call = some call) (hne : call.phase ≠ .returned (.replied call.msg)) :
    (∃ c', c.step .call = some c') ∨ c.session.chain = .idle ∨
      ∃ l, l ≠ .start ∧ calmSession c l = true ∧ ∃ c', c.step (.session l) = some c' := by
  rcases c with ⟨s, _⟩
  cases hcall
  have hagrees := hinv.call
  have hsmall : call.msg.length ≤ maxLength := hc.small call rfl
  have hclient : s.client = true := by
    rw [← Bool.not_eq_false]
    exact fun hgone => hne (hc.client hgone call rfl)
  have hlive : s.chain.live = true := hc.goesOn.resolve_right (by simp [hclient])
  rcases call with ⟨msg, written, reply, _ | _ | r⟩
  · left
    by_cases hwritten : written < msg.length <;>
      simp [Connection.step, EchoClient.Call.step, hwritten]
  · by_cases hroom : EchoClient.Call.room ⟨msg, written, reply, .reading⟩ = 0
    · left
      simp [Connection.step, EchoClient.Call.step, hroom]
    · by_cases hreplies : s.replies = []
      · right
        refine (session_progress (c := ⟨s, some ⟨msg, written, reply, .reading⟩⟩) hlive).resolve_right ?_
        rintro ⟨hchain, hrequests⟩
        have hwritten : msg.length ≤ written := hc.written _ rfl (by simp)
        have hreply : reply = msg := by
          calc reply = s.received := hagrees.received.symm
            _ = s.sent.flatten := received_eq_sent hinv.session.toEchoes hchain hrequests hreplies
            _ = msg.take written := hagrees.sent
            _ = msg := List.take_of_length_le hwritten
        apply hroom
        rw [EchoClient.Call.room, hreply]
        exact Nat.sub_eq_zero_of_le (Nat.min_le_right _ _)
      · left
        obtain ⟨x, hx⟩ := exists_readMessage
          (min (EchoClient.Call.room ⟨msg, written, reply, .reading⟩)
            EchoClient.defaultMaxTransferSize) hreplies
        simp [Connection.step, EchoClient.Call.step, EchoSession.State.clientRead, hroom, hx]
  · exact absurd (congrArg _ (hc.returned _ rfl r rfl)) hne

/-- What holds as long as nothing fails. -/
structure Undisturbed (msgs : List Bytes) (s : State) : Prop where
  invariant : Invariant msgs s
  threw : s.loop.threw = false
  small : ∀ msg ∈ s.waiting, msg.length ≤ maxLength
  refused : s.refused = []
  pipe : s.loop.calling = true → s.loop.pipe = none
  posted : ∀ w ∈ s.loop.waiting, ∀ ec, w.2 = some ec → ec.failed = false
  connections : ∀ c ∈ s.connections, Calm c

section Steps

variable {msgs : List Bytes} {s s' : State} {h : Handle}

/-- A step at a connection leaves the accept loop alone. -/
theorem undisturbed_set {c : Connection} (hs : Undisturbed msgs s) (hs' : Invariant msgs s')
    (hc : s.connections[h]? = some c) (c' : Connection) (hcall : c'.call.isSome = c.call.isSome)
    (hcalm : Calm c' ∧ weight c' < weight c) (handles : NamedPipe.Handles)
    (heq : s' = { s with
      loop := { s.loop with handles }
      connections := s.connections.set h c' }) :
    Undisturbed msgs s' ∧ systemWeight s' < systemWeight s := by
  subst heq
  have hcame : clientCame { s with
      loop := { s.loop with handles }
      connections := s.connections.set h c' } = clientCame s := by
    rw [clientCame, clientCame]
    cases s.loop.pipe with
    | none => rfl
    | some hPipe =>
        by_cases hh : h = hPipe
        · subst hh
          rw [Option.bind_some, Option.bind_some,
            List.getElem?_set_self (List.getElem?_eq_some_iff.mp hc).1, hc]
          exact hcall
        · rw [Option.bind_some, Option.bind_some, List.getElem?_set_ne hh]
  refine ⟨⟨hs', hs.threw, hs.small, hs.refused, hs.pipe, hs.posted, ?_⟩, ?_⟩
  · intro d hd
    rcases List.mem_or_eq_of_mem_set hd with hd | rfl
    · exact hs.connections d hd
    · exact hcalm.1
  · have hsum := sum_map_set weight hc c'
    have hlt := hcalm.2
    simp only [systemWeight, loopWeight, restWeight, hcame]
    omega

/-- A call that waits connects to an instance. -/
theorem undisturbed_connect {i : Nat} (hs : Undisturbed msgs s) (hstep : s.connect i h = some s') :
    Undisturbed msgs s' ∧ s'.loop = s.loop ∧ restWeight s' + 8 ≤ restWeight s := by
  have hs' := hs.invariant.connect hstep
  obtain ⟨-, hstep⟩ := Option.ite_none_right_eq_some.mp hstep
  obtain ⟨msg, hmsg, hstep⟩ := Option.bind_eq_some_iff.mp hstep
  obtain ⟨c, c', hc, hconnect, rfl⟩ := atConnection_eq_some hstep
  have hcalm := hs.connections c (List.mem_of_getElem? hc)
  have hsmall := hs.small msg (List.mem_of_getElem? hmsg)
  rcases c with ⟨session, _ | call⟩
  · cases hconnect
    have hclient : session.client = true := hcalm.unused rfl
    refine ⟨⟨hs', hs.threw, ?_, hs.refused, hs.pipe, hs.posted, ?_⟩, rfl, ?_⟩
    · intro msg' hmsg'
      exact hs.small msg' (List.mem_of_mem_eraseIdx hmsg')
    · intro d hd
      rcases List.mem_or_eq_of_mem_set hd with hd | rfl
      · exact hs.connections d hd
      · refine ⟨by simp, by simpa using hsmall, hcalm.requests, hcalm.replies, hcalm.goesOn, ?_,
          by simp, by simp⟩
        intro hgone
        cases hclient.symm.trans hgone
    · have hwaiting := sum_map_eraseIdx waitingWeight hmsg
      have hsum := sum_map_set weight hc ⟨session, some { msg }⟩
      simp only [weight, waitingWeight, callWeight, List.length_nil, Option.map_none,
        Option.map_some, Option.getD_none, Option.getD_some] at hwaiting hsum
      simp only [restWeight]
      omega
  · cases hconnect

/-- A new instance, before a client has come. -/
theorem undisturbed_created (hs : Undisturbed msgs s) {lastError : UInt32} {loop : AcceptLoop.State}
    (hlast : lastError = NamedPipe.errorPipeConnected ∨ lastError = ErrorCode.ioPending)
    (hloop : AcceptLoop.step s.loop (.accept none false lastError) = some loop) :
    Undisturbed msgs (s.created loop) ∧ s.loop.calling = true ∧ loop.calling = false ∧
      loop.pipe = some s.connections.length ∧
      (∃ id, loop.waiting = [(id, if lastError = ErrorCode.ioPending then none else some .success)]) ∧
      restWeight (s.created loop) = restWeight s + 4 := by
  have hinv := hs.invariant.loop hs.threw
  have hstepped := AcceptLoop.stepped_of_step hinv hloop
  have hcreated : Invariant msgs (s.created loop) := by
    obtain ⟨hhandles, hsessions, hpipe⟩ := loop_of_accept hloop
    exact hs.invariant.created (loop_of_step hs.invariant.loop hloop) hhandles hsessions hpipe
  have hposted : NamedPipe.posted (NamedPipe.asyncServerConnect false lastError) =
      if lastError = ErrorCode.ioPending then none else some .success := by
    rcases hlast with rfl | rfl <;> decide
  cases hstepped with
  | threw _ _ hPipe hcalling hpipe hthrew => cases hpipe.symm.trans (hs.pipe hcalling)
  | assigned _ _ hcalling hwaiting hpipe =>
      rw [hposted]
      refine ⟨⟨hposted ▸ hcreated, hs.threw, hs.small, hs.refused, (fun hfalse => by cases hfalse), ?_, ?_⟩,
        hcalling, rfl, congrArg some hs.invariant.length.symm, ⟨_, rfl⟩, ?_⟩
      · rintro w hw ec hec
        rw [List.mem_singleton.mp hw] at hec
        dsimp only at hec
        split at hec
        · cases hec
        · cases hec
          rfl
      · intro c hc
        rcases List.mem_append.mp hc with hc | hc
        · exact hs.connections c hc
        · rw [List.mem_singleton.mp hc]
          exact ⟨fun _ => rfl, by simp, by simp, by simp, .inl rfl, by simp, by simp, by simp⟩
      · simp [restWeight, State.created, weight, chainWeight, Nat.add_assoc]

theorem undisturbed_accept (hs : Undisturbed msgs s) {error : Option Failure} {early : Option Nat}
    {fConnected : Bool} {lastError : UInt32}
    (hcalm : calm s (.accept error early fConnected lastError) = true)
    (hstep : step s (.accept error early fConnected lastError) = some s') :
    Undisturbed msgs s' ∧ systemWeight s' < systemWeight s := by
  simp only [calm, Bool.and_eq_true, Option.isNone_iff_eq_none, Bool.not_eq_true',
    decide_eq_true_eq] at hcalm
  obtain ⟨⟨rfl, rfl⟩, rfl⟩ := hcalm
  obtain ⟨loop, hloop, hstep⟩ := Option.bind_eq_some_iff.mp hstep
  obtain ⟨hcreated, hcalling, hcalling', hpipe, ⟨id, hwaiting⟩, hrest⟩ :=
    undisturbed_created hs (by cases early <;> simp) hloop
  have hbefore : systemWeight s = 6 + restWeight s := by
    rw [systemWeight, loopWeight_of_calling hcalling]
  cases early with
  | none =>
      cases hstep
      refine ⟨hcreated, ?_⟩
      have hcame : clientCame (s.created loop) = false := by
        simp [clientCame, State.created, hpipe]
      rw [hbefore, systemWeight, hrest, loopWeight_of_pending hcalling' hwaiting, hcame]
      simp only [Bool.false_eq_true, if_false]
      omega
  | some i =>
      obtain ⟨hs', hloop', hrest'⟩ := undisturbed_connect hcreated hstep
      refine ⟨hs', ?_⟩
      have hloop' : s'.loop = loop := hloop'
      rw [← hloop'] at hcalling' hwaiting
      rw [hbefore, systemWeight, loopWeight_of_posted hcalling' hwaiting]
      omega

theorem undisturbed_complete (hs : Undisturbed msgs s) {id : Nat} {error : Option Failure}
    (hcalm : calm s (.complete id error) = true) (hstep : step s (.complete id error) = some s') :
    Undisturbed msgs s' ∧ systemWeight s' < systemWeight s := by
  have hs' := invariant_of_step hs.invariant hstep
  simp only [calm, Bool.and_eq_true, Option.isNone_iff_eq_none] at hcalm
  obtain ⟨rfl, hcame⟩ := hcalm
  obtain ⟨loop, hloop, rfl⟩ := Option.map_eq_some_iff.mp hstep
  cases AcceptLoop.stepped_of_step (hs.invariant.loop hs.threw) hloop with
  | completed _ _ hPipe hcalling hwaiting hpipe =>
      refine ⟨⟨hs', hs.threw, hs.small, hs.refused, hs.pipe, ?_, hs.connections⟩, ?_⟩
      · rintro w hw ec hec
        rw [List.mem_singleton.mp hw] at hec
        cases hec
        rfl
      · have hbefore := loopWeight_of_pending hcalling hwaiting
        rw [hcame, if_pos rfl] at hbefore
        have hafter : systemWeight
            { s with loop := { s.loop with waiting := [(id, some .success)] } } =
            7 + restWeight s := congrArg (· + restWeight s) (loopWeight_of_posted hcalling rfl)
        refine Nat.lt_of_le_of_lt (Nat.le_of_eq hafter) ?_
        rw [systemWeight, hbefore]
        omega

/-- The pipe that was accepted is moved into a session, which is started. -/
theorem undisturbed_run (hs : Undisturbed msgs s) {id : Nat}
    (hstep : step s (.run id) = some s') :
    Undisturbed msgs s' ∧ systemWeight s' < systemWeight s := by
  have hs' := invariant_of_step hs.invariant hstep
  obtain ⟨loop, hloop, hstep⟩ := Option.bind_eq_some_iff.mp hstep
  have hcalling : s.loop.calling = false := by
    obtain ⟨-, hloop⟩ := Option.ite_none_left_eq_some.mp hloop
    obtain ⟨hcalling, -⟩ := Option.ite_none_left_eq_some.mp hloop
    simpa using hcalling
  cases AcceptLoop.stepped_of_step (hs.invariant.loop hs.threw) hloop with
  | connected _ ec hPipe hwaiting hpipe hec =>
      simp only [List.drop_left, List.foldlM_cons, List.foldlM_nil, bind_pure] at hstep
      obtain ⟨c, c', hc, hstart, rfl⟩ := atConnection_eq_some hstep
      obtain ⟨session, hsession, rfl⟩ := Option.map_eq_some_iff.mp hstart
      have hmem := List.mem_of_getElem? hc
      obtain ⟨hcalm, hlt⟩ := calm_session (hs.invariant.connections c hmem)
        (hs.connections c hmem) rfl rfl hsession
      refine ⟨⟨hs', hs.threw, hs.small, hs.refused, fun _ => rfl, by simp, ?_⟩, ?_⟩
      · intro d hd
        rcases List.mem_or_eq_of_mem_set hd with hd | rfl
        · exact hs.connections d hd
        · exact hcalm
      · rw [systemWeight, systemWeight, loopWeight_of_posted hcalling hwaiting,
          loopWeight_of_calling rfl]
        have hsum := sum_map_set weight hc { c with session }
        simp only [restWeight]
        dsimp only at hsum ⊢
        omega
  | failed _ ec hPipe hwaiting hpipe hec =>
      have hposted := hs.posted (id, some ec) (by rw [hwaiting]; exact List.mem_singleton_self _)
      cases hec.symm.trans (hposted ec rfl)

theorem undisturbed_session (hs : Undisturbed msgs s) {l : EchoSession.Label}
    (hcalm : calm s (.session h l) = true) (hstep : step s (.session h l) = some s') :
    Undisturbed msgs s' ∧ systemWeight s' < systemWeight s := by
  have hs' := invariant_of_step hs.invariant hstep
  obtain ⟨-, hstep⟩ := Option.ite_none_left_eq_some.mp hstep
  obtain ⟨t, ht, rfl⟩ := Option.map_eq_some_iff.mp hstep
  obtain ⟨c, c', hc, hcstep, rfl⟩ := atConnection_eq_some ht
  obtain ⟨hl, hcstep⟩ := Option.ite_none_right_eq_some.mp hcstep
  obtain ⟨session, hsession, rfl⟩ := Option.map_eq_some_iff.mp hcstep
  have hmem := List.mem_of_getElem? hc
  simp only [calm, hc, Option.all_some] at hcalm
  have hcalm' := calm_session (hs.invariant.connections c hmem) (hs.connections c hmem) hl hcalm
    hsession
  generalize hrelease : State.release _ h = r at hs' ⊢
  rw [State.release] at hrelease
  split at hrelease
  · exact undisturbed_set hs hs' hc { c with session } rfl hcalm' _ hrelease.symm
  · exact undisturbed_set hs hs' hc { c with session } rfl hcalm' s.loop.handles hrelease.symm

theorem undisturbed_call (hs : Undisturbed msgs s) (hstep : step s (.call h) = some s') :
    Undisturbed msgs s' ∧ systemWeight s' < systemWeight s := by
  have hs' := invariant_of_step hs.invariant hstep
  obtain ⟨c, c', hc, hcstep, rfl⟩ := atConnection_eq_some hstep
  have hmem := List.mem_of_getElem? hc
  have hcalm := calm_call (hs.invariant.connections c hmem) (hs.connections c hmem) hcstep
  obtain ⟨call, hcall, hcstep⟩ := Option.bind_eq_some_iff.mp hcstep
  obtain ⟨x, -, rfl⟩ := Option.map_eq_some_iff.mp hcstep
  exact undisturbed_set hs hs' hc ⟨x.2, some x.1⟩ (by simp [hcall]) hcalm s.loop.handles rfl

end Steps

/-- No step but one that is calm and makes progress. -/
theorem undisturbed_step {msgs : List Bytes} {s s' : State} {l : Label} (hs : Undisturbed msgs s)
    (h : calmSystem.step s l = some s') :
    Undisturbed msgs s' ∧ systemWeight s' < systemWeight s := by
  obtain ⟨hcalm, hstep⟩ := Option.ite_none_right_eq_some.mp h
  cases l with
  | accept error early fConnected lastError => exact undisturbed_accept hs hcalm hstep
  | complete id error => exact undisturbed_complete hs hcalm hstep
  | run id => exact undisturbed_run hs hstep
  | session hPipe l => exact undisturbed_session hs hcalm hstep
  | connect i hPipe =>
      obtain ⟨hs', hloop, hrest⟩ := undisturbed_connect hs hstep
      refine ⟨hs', ?_⟩
      have hle : loopWeight s' ≤ loopWeight s + 7 := by
        rw [loopWeight, loopWeight, hloop]
        split
        · omega
        · split
          · split <;> split <;> omega
          · omega
      rw [systemWeight, systemWeight]
      omega
  | refuse i f => cases hcalm
  | call hPipe => exact undisturbed_call hs hstep
  | fail hPipe f => cases hcalm

theorem isOpen_of_idle {msgs : List Bytes} {s : State} {h : Handle} {c : Connection}
    (hs : Invariant msgs s) (hc : s.connections[h]? = some c) (hidle : c.session.chain = .idle) :
    s.isOpen h = true := by
  obtain ⟨x, hx⟩ : ∃ x, s.loop.handles[h]? = some x :=
    ⟨_, List.getElem?_eq_getElem (hs.length ▸ (List.getElem?_eq_some_iff.mp hc).1)⟩
  have hopen : x.closed = false := by
    rw [← Bool.not_eq_true, hs.closed h c x hc hx, hidle]
    decide
  simp [State.isOpen, hx, hopen]

/-- The accept loop goes on, or waits for a client in a pipe instance. -/
theorem loop_progress {msgs : List Bytes} {s : State} (hs : Undisturbed msgs s) :
    (∃ l s', calmSystem.step s l = some s') ∨
      ∃ h c, s.loop.pipe = some h ∧ s.connections[h]? = some c ∧ c.session.chain = .idle ∧
        c.call = none := by
  cases (hs.invariant.loop hs.threw).phase with
  | calling hcalling hwaiting =>
      left
      refine ⟨.accept none none false ErrorCode.ioPending, ?_⟩
      simp [calmSystem, calm, step, AcceptLoop.step, hs.threw, hcalling]
  | connecting w h hcalling hwaiting hpipe =>
      obtain ⟨c, hc, hidle⟩ := hs.invariant.pipe h hpipe
      obtain ⟨id, _ | ec⟩ := w
      · cases hcall : c.call with
        | none => exact .inr ⟨h, c, hpipe, hc, hidle, hcall⟩
        | some call =>
            left
            refine ⟨.complete id none, ?_⟩
            have hcame : clientCame s = true := by simp [clientCame, hpipe, hc, hcall]
            simp [calmSystem, calm, step, AcceptLoop.step, hs.threw, hwaiting, hcame]
      · left
        refine ⟨.run id, ?_⟩
        have hec := hs.posted (id, some ec) (by rw [hwaiting]; exact List.mem_singleton_self _) ec rfl
        simp [calmSystem, calm, step, AcceptLoop.step, hs.threw, hcalling, hwaiting,
          AcceptLoop.State.handler, hec, hpipe, State.atConnection, hc, Connection.step,
          EchoClient.ofServer, EchoSession.step, hidle]

theorem undisturbed_progress {msgs : List Bytes} {s : State} (hs : Undisturbed msgs s)
    (hne : ¬ AllAnswered msgs s) : ∃ l s', calmSystem.step s l = some s' := by
  by_contra hstuck
  obtain ⟨h, c, hpipe, hc, hidle, hcall⟩ := (loop_progress hs).resolve_left hstuck
  apply hne
  -- a call that waits would connect to the pipe that waits
  have hwaiting : s.waiting = [] := by
    by_contra hwaiting
    obtain ⟨msg, rest, hmsg⟩ := List.exists_cons_of_ne_nil hwaiting
    apply hstuck
    refine ⟨.connect 0 h, ?_⟩
    have hopen := isOpen_of_idle hs.invariant hc hidle
    rcases c with ⟨session, _ | call⟩
    · simp [calmSystem, calm, step, State.connect, hopen, hmsg, State.atConnection, hc,
        Connection.step]
    · cases hcall
  refine ⟨?_, ?_⟩
  · have hcalls := hs.invariant.calls
    simpa [calls, hwaiting, hs.refused] using hcalls
  · intro d hd call hdcall
    by_contra hunanswered
    obtain ⟨i, hi⟩ := List.getElem?_of_mem hd
    apply hstuck
    rcases calm_progress (hs.invariant.connections d hd) (hs.connections d hd) hdcall
      hunanswered with ⟨d', hd'⟩ | hdidle | ⟨l, hl, hcalm, d', hd'⟩
    · refine ⟨.call i, ?_⟩
      simp [calmSystem, calm, step, State.atConnection, hi, hd']
    · -- an instance without a session is the one the loop waits for
      have hlt := (List.getElem?_eq_some_iff.mp hi).1
      rw [hs.invariant.length] at hlt
      rcases (hs.invariant.loop hs.threw).owned i _ (List.getElem?_eq_getElem hlt) with howned | howned
      · cases hpipe.symm.trans howned
        cases hi.symm.trans hc
        cases hcall.symm.trans hdcall
      · obtain ⟨d', hd', hne⟩ := (hs.invariant.sessions i).mp howned
        cases hi.symm.trans hd'
        exact absurd hdidle hne
    · refine ⟨.session i l, ?_⟩
      simp [calmSystem, calm, step, State.atConnection, hi, hd', hl, hcalm]

theorem undisturbed_start {msgs : List Bytes} (hmsgs : ∀ msg ∈ msgs, msg.length ≤ maxLength) :
    Undisturbed msgs (start msgs) :=
  ⟨invariant_start msgs, rfl, hmsgs, rfl, fun _ => rfl, by simp [start], by simp [start]⟩

/-- Whatever order the steps are taken in, each of the calls gets its own message
back within a bound that is linear in what they send. -/
theorem echoServer_answers {msgs : List Bytes} (hmsgs : ∀ msg ∈ msgs, msg.length ≤ maxLength) :
    calmSystem.Within (AllAnswered msgs) (6 + (msgs.map fun msg => 9 * msg.length + 11).sum)
      (start msgs) :=
  System.within_of_measure systemWeight (fun _ hs hne => undisturbed_progress hs hne)
    (fun _ _ _ hs _ h => undisturbed_step hs h) (undisturbed_start hmsgs)

theorem echoServer_answers_two :
    calmSystem.Within (AllAnswered [[104, 105], []]) 46 (start [[104, 105], []]) :=
  echoServer_answers (by decide)

end Winasio.EchoProgress
