import Winasio.Basic
import Winasio.Transition

/-!
`session` of the echo server, on the pipe instance it was given: it reads a
message into its buffer and writes it back, until an operation fails. The
client at the other end of the pipe does what it likes.
-/

namespace Winasio.EchoSession

open Winasio.Transition

/-- `max_length`. -/
def maxLength : Nat := 1024

/-- `ReadFile` in message-read mode with room for `n` bytes, on the messages in
the pipe: what it stores, its status and what stays. A message that does not
fit loses what was read of it. -/
def readMessage (n : Nat) : List Bytes → Option (Bytes × ErrorCode × List Bytes)
  | [] => none
  | m :: rest =>
      if m.length ≤ n then some (m, .success, rest)
      else some (m.take n, ⟨ErrorCode.moreData⟩, m.drop n :: rest)

theorem readMessage_flatten {n : Nat} {ms rest : List Bytes} {m : Bytes} {ec : ErrorCode}
    (h : readMessage n ms = some (m, ec, rest)) : m ++ rest.flatten = ms.flatten := by
  cases ms with
  | nil => cases h
  | cons m' ms =>
      rw [readMessage] at h
      split at h
      · cases h
        rfl
      · cases h
        rw [List.flatten_cons, List.flatten_cons, ← List.append_assoc, List.take_append_drop]

theorem readMessage_success {n : Nat} {ms rest : List Bytes} {m : Bytes} {ec : ErrorCode}
    (h : readMessage n ms = some (m, ec, rest)) (hec : ec.failed = false) :
    ms = m :: rest ∧ m.length ≤ n := by
  cases ms with
  | nil => cases h
  | cons m' ms =>
      rw [readMessage] at h
      split at h
      · next hfits =>
          cases h
          exact ⟨rfl, hfits⟩
      · cases h
        cases hec

theorem length_of_readMessage {n : Nat} {ms rest : List Bytes} {m : Bytes} {ec : ErrorCode}
    (h : readMessage n ms = some (m, ec, rest)) : rest.length ≤ ms.length := by
  cases ms with
  | nil => cases h
  | cons m' ms =>
      rw [readMessage] at h
      split at h
      · cases h
        exact Nat.le_succ _
      · cases h
        exact Nat.le_refl _

/-- Where the chain of handlers of a session is: not begun, in one of its
operations, before one of its handlers, or over, with the session destroyed. A
write is `taken` once its message is in the pipe. -/
inductive Chain where
  | idle
  | reading
  | read (ec : ErrorCode) (length : Nat)
  | writing (length : Nat) (taken : Bool)
  | written (ec : ErrorCode)
  | ended
  deriving DecidableEq, Repr

def Chain.live : Chain → Bool
  | .read ec _ | .written ec => !ec.failed
  | .ended => false
  | _ => true

/-- A session with the messages in its pipe. `data` is `data_` as far as it was
ever written; `sent`, `echoed` and `received` are the messages the client wrote,
those the session wrote, and the bytes the client read. -/
structure State where
  requests : List Bytes := []
  replies : List Bytes := []
  data : Bytes := []
  chain : Chain := .idle
  client : Bool := true
  sent : List Bytes := []
  echoed : List Bytes := []
  received : Bytes := []
  deriving DecidableEq, Repr

namespace State

def doRead (s : State) : State := { s with chain := .reading }

/-- `async_write` of no bytes completes without a message. -/
def doWrite (s : State) (length : Nat) : State :=
  { s with chain := if length = 0 then .written .success else .writing length false }

def readHandler (s : State) (ec : ErrorCode) (length : Nat) : State :=
  if !ec.failed then s.doWrite length else { s with chain := .ended }

def writeHandler (s : State) (ec : ErrorCode) : State :=
  if !ec.failed then s.doRead else { s with chain := .ended }

def clientWrite (s : State) (m : Bytes) : State :=
  { s with requests := s.requests ++ [m], sent := s.sent ++ [m] }

/-- The client reads with room for `n` bytes. -/
def clientRead (s : State) (n : Nat) : Option (Bytes × ErrorCode × State) :=
  (readMessage n s.replies).map fun (m, ec, rest) =>
    (m, ec, { s with replies := rest, received := s.received ++ m })

def clientClose (s : State) : State := { s with client := false }

end State

/-- `start` is called; the kernel completes the outstanding read, takes the
message of the outstanding write, or completes that; the executor runs the
handler; the client uses its end of the pipe. -/
inductive Label where
  | start
  | read (error : Option Failure)
  | take
  | write (error : Option Failure)
  | run
  | clientWrite (m : Bytes)
  | clientRead (n : Nat)
  | clientClose
  deriving DecidableEq

def step (s : State) : Label → Option State
  | .start => if s.chain = .idle then some s.doRead else none
  | .read none =>
      if s.chain = .reading then
        (readMessage maxLength s.requests).map fun (m, ec, rest) =>
          { s with
            requests := rest
            data := m ++ s.data.drop m.length
            chain := .read ec m.length }
      else none
  | .read (some f) => if s.chain = .reading then some { s with chain := .read f.val 0 } else none
  | .take =>
      match s.chain with
      | .writing length false =>
          -- the kernel reads the buffer now, not when the write was started
          some { s with
            replies := s.replies ++ [s.data.take length]
            echoed := s.echoed ++ [s.data.take length]
            chain := .writing length true }
      | _ => none
  | .write none =>
      match s.chain with
      | .writing _ true => some { s with chain := .written .success }
      | _ => none
  | .write (some f) =>
      match s.chain with
      | .writing _ _ => some { s with chain := .written f.val }
      | _ => none
  | .run =>
      match s.chain with
      | .read ec length => some (s.readHandler ec length)
      | .written ec => some (s.writeHandler ec)
      | _ => none
  | .clientWrite m => if s.client then some (s.clientWrite m) else none
  | .clientRead n => if s.client then (s.clientRead n).map (·.2.2) else none
  | .clientClose => some s.clientClose

def system : System State Label := ⟨step⟩

/-- What each step finds and leaves. -/
inductive Stepped (s : State) : Label → State → Prop
  | start : s.chain = .idle → Stepped s .start s.doRead
  | read (m : Bytes) (ec : ErrorCode) (rest : List Bytes) : s.chain = .reading →
      readMessage maxLength s.requests = some (m, ec, rest) →
      Stepped s (.read none)
        { s with
          requests := rest
          data := m ++ s.data.drop m.length
          chain := .read ec m.length }
  | readFailed (f : Failure) : s.chain = .reading →
      Stepped s (.read (some f)) { s with chain := .read f.val 0 }
  | take (length : Nat) : s.chain = .writing length false →
      Stepped s .take
        { s with
          replies := s.replies ++ [s.data.take length]
          echoed := s.echoed ++ [s.data.take length]
          chain := .writing length true }
  | written (length : Nat) : s.chain = .writing length true →
      Stepped s (.write none) { s with chain := .written .success }
  | writeFailed (f : Failure) (length : Nat) (taken : Bool) : s.chain = .writing length taken →
      Stepped s (.write (some f)) { s with chain := .written f.val }
  | readHandler (ec : ErrorCode) (length : Nat) : s.chain = .read ec length →
      Stepped s .run (s.readHandler ec length)
  | writeHandler (ec : ErrorCode) : s.chain = .written ec → Stepped s .run (s.writeHandler ec)
  | clientWrite (m : Bytes) : s.client = true → Stepped s (.clientWrite m) (s.clientWrite m)
  | clientRead (n : Nat) (m : Bytes) (ec : ErrorCode) (s' : State) : s.client = true →
      s.clientRead n = some (m, ec, s') → Stepped s (.clientRead n) s'
  | clientClose : Stepped s .clientClose s.clientClose

theorem stepped_of_step {s s' : State} {l : Label} (h : step s l = some s') : Stepped s l s' := by
  cases l with
  | start =>
      obtain ⟨hchain, h⟩ := Option.ite_none_right_eq_some.mp h
      cases h
      exact .start hchain
  | read error =>
      cases error with
      | none =>
          obtain ⟨hchain, h⟩ := Option.ite_none_right_eq_some.mp h
          obtain ⟨⟨m, ec, rest⟩, hread, rfl⟩ := Option.map_eq_some_iff.mp h
          exact .read m ec rest hchain hread
      | some f =>
          obtain ⟨hchain, h⟩ := Option.ite_none_right_eq_some.mp h
          cases h
          exact .readFailed f hchain
  | take =>
      dsimp only [step] at h
      split at h
      · next length hchain =>
          cases h
          exact .take length hchain
      · cases h
  | write error =>
      cases error with
      | none =>
          dsimp only [step] at h
          split at h
          · next length hchain =>
              cases h
              exact .written length hchain
          · cases h
      | some f =>
          dsimp only [step] at h
          split at h
          · next length taken hchain =>
              cases h
              exact .writeFailed f length taken hchain
          · cases h
  | run =>
      dsimp only [step] at h
      split at h
      · next ec length hchain =>
          cases h
          exact .readHandler ec length hchain
      · next ec hchain =>
          cases h
          exact .writeHandler ec hchain
      · cases h
  | clientWrite m =>
      obtain ⟨hclient, h⟩ := Option.ite_none_right_eq_some.mp h
      cases h
      exact .clientWrite m hclient
  | clientRead n =>
      obtain ⟨hclient, h⟩ := Option.ite_none_right_eq_some.mp h
      obtain ⟨⟨m, ec, t⟩, hread, rfl⟩ := Option.map_eq_some_iff.mp h
      exact .clientRead n m ec t hclient hread
  | clientClose =>
      cases h
      exact .clientClose

/-- The messages that have bytes: the others are not written back. -/
def messages (ms : List Bytes) : List Bytes := ms.filter (· ≠ [])

@[simp] theorem messages_append (ms ms' : List Bytes) :
    messages (ms ++ ms') = messages ms ++ messages ms' := List.filter_append ..

theorem flatten_messages (ms : List Bytes) : (messages ms).flatten = ms.flatten := by
  induction ms with
  | nil => rfl
  | cons m ms ih =>
      cases m with
      | nil => exact ih
      | cons x m => exact congrArg (x :: m ++ ·) ih

/-- What the session has read and not yet written. -/
def holding (s : State) : List Bytes :=
  match s.chain with
  | .read _ length | .writing length false => [s.data.take length]
  | _ => []

/-- What was read and not yet written is still in the buffer. -/
def Buffered (s : State) : Prop :=
  match s.chain with
  | .read ec length => ec.failed = false → length ≤ s.data.length ∧ length ≤ maxLength
  | .writing length _ => length ≠ 0 ∧ length ≤ s.data.length ∧ length ≤ maxLength
  | _ => True

/-- The session has written back the first of the messages it was sent, one for
one, and the client reads what was written. While the chain goes on every
message is written back, held, or still in the pipe. -/
structure Echoes (s : State) : Prop where
  received : s.received ++ s.replies.flatten = s.echoed.flatten
  echoed : s.echoed <+: messages s.sent
  fits : ∀ m ∈ s.echoed, m.length ≤ maxLength
  complete : s.chain.live = true →
    s.echoed ++ messages (holding s) ++ messages s.requests = messages s.sent

structure Invariant (s : State) : Prop extends Echoes s where
  buffered : Buffered s

theorem Echoes.nonempty {s : State} (h : Echoes s) : messages s.echoed = s.echoed := by
  apply List.filter_eq_self.mpr
  intro m hm
  exact (List.mem_filter.mp (h.echoed.subset hm)).2

theorem prefix_of_complete {s : State}
    (h : s.echoed ++ messages (holding s) ++ messages s.requests = messages s.sent) :
    s.echoed <+: messages s.sent :=
  ⟨messages (holding s) ++ messages s.requests, by rw [← List.append_assoc, h]⟩

/-- The chain gives up: what was written back stays. -/
theorem Invariant.of_not_live {s : State} (h : Invariant s) (requests : List Bytes)
    (data : Bytes) {chain : Chain} (hchain : chain.live = false) :
    Invariant { s with requests, data, chain } := by
  refine ⟨⟨h.received, h.echoed, h.fits, ?_⟩, ?_⟩
  · intro hlive
    cases hlive.symm.trans hchain
  · cases chain with
    | read ec length =>
        intro hec
        simp [Chain.live, hec] at hchain
    | written ec => trivial
    | ended => trivial
    | _ => cases hchain

theorem Invariant.readHandler {s : State} (hs : Invariant s) {ec : ErrorCode} {length : Nat}
    (hchain : s.chain = .read ec length) : Invariant (s.readHandler ec length) := by
  cases hec : ec.failed with
  | true =>
      simp only [State.readHandler, hec, Bool.not_true, Bool.false_eq_true, if_false]
      exact hs.of_not_live s.requests s.data rfl
  | false =>
      have hbuffered := hs.buffered
      have hcomplete := hs.complete
      simp only [Buffered, hchain, hec, forall_const] at hbuffered
      simp only [hchain, Chain.live, hec, Bool.not_false, holding, forall_const] at hcomplete
      by_cases hlength : length = 0
      · simp only [State.readHandler, State.doWrite, hec, hlength, Bool.not_false, if_true]
        rw [hlength, List.take_zero] at hcomplete
        exact ⟨⟨hs.received, hs.echoed, hs.fits, fun _ => hcomplete⟩, trivial⟩
      · simp only [State.readHandler, State.doWrite, hec, hlength, Bool.not_false, if_true, if_false]
        exact ⟨⟨hs.received, hs.echoed, hs.fits, fun _ => hcomplete⟩, hlength, hbuffered⟩

theorem Invariant.writeHandler {s : State} (hs : Invariant s) {ec : ErrorCode}
    (hchain : s.chain = .written ec) : Invariant (s.writeHandler ec) := by
  cases hec : ec.failed with
  | true =>
      simp only [State.writeHandler, hec, Bool.not_true, Bool.false_eq_true, if_false]
      exact hs.of_not_live s.requests s.data rfl
  | false =>
      have hcomplete := hs.complete
      simp only [hchain, Chain.live, hec, Bool.not_false, holding, forall_const] at hcomplete
      simp only [State.writeHandler, State.doRead, hec, Bool.not_false, if_true]
      exact ⟨⟨hs.received, hs.echoed, hs.fits, fun _ => hcomplete⟩, trivial⟩

theorem Invariant.read {s : State} (hs : Invariant s) (hchain : s.chain = .reading) {m : Bytes}
    {ec : ErrorCode} {rest : List Bytes}
    (h : readMessage maxLength s.requests = some (m, ec, rest)) :
    Invariant { s with
      requests := rest
      data := m ++ s.data.drop m.length
      chain := .read ec m.length } := by
  cases hec : ec.failed with
  | true => exact hs.of_not_live rest _ (by simp [Chain.live, hec])
  | false =>
      obtain ⟨hrequests, hfits⟩ := readMessage_success h hec
      have hcomplete := hs.complete
      simp only [hchain, Chain.live, holding, forall_const, hrequests] at hcomplete
      refine ⟨⟨hs.received, hs.echoed, hs.fits, fun _ => ?_⟩, fun _ => ⟨?_, hfits⟩⟩
      · rw [← hcomplete]
        simp only [holding, List.take_left, List.append_assoc, ← messages_append]
        rfl
      · simp

theorem Invariant.take {s : State} (hs : Invariant s) {length : Nat}
    (hchain : s.chain = .writing length false) :
    Invariant { s with
      replies := s.replies ++ [s.data.take length]
      echoed := s.echoed ++ [s.data.take length]
      chain := .writing length true } := by
  have hbuffered := hs.buffered
  simp only [Buffered, hchain] at hbuffered
  obtain ⟨hpos, hle, hfits⟩ := hbuffered
  have hlength : (s.data.take length).length = length := List.length_take_of_le hle
  have hne : messages [s.data.take length] = [s.data.take length] := by
    have hne : s.data.take length ≠ [] := by
      intro hnil
      rw [hnil] at hlength
      exact hpos hlength.symm
    simp [messages, hne]
  have hcomplete := hs.complete
  simp only [hchain, Chain.live, holding, forall_const, hne] at hcomplete
  have hcomplete' : (s.echoed ++ [s.data.take length]) ++ messages [] ++ messages s.requests =
      messages s.sent := by
    rw [← hcomplete, show messages [] = [] from rfl, List.append_nil]
  refine ⟨⟨?_, ?_, ?_, fun _ => hcomplete'⟩, hpos, hle, hfits⟩
  · rw [List.flatten_append, List.flatten_append, ← List.append_assoc, hs.received]
  · refine ⟨messages s.requests, ?_⟩
    rw [← hcomplete', show messages [] = [] from rfl, List.append_nil]
  · intro m hm
    rcases List.mem_append.mp hm with hm | hm
    · exact hs.fits m hm
    · rw [List.mem_singleton.mp hm, hlength]
      exact hfits

theorem Invariant.clientWrite {s : State} (hs : Invariant s) (m : Bytes) :
    Invariant (s.clientWrite m) := by
  refine ⟨⟨hs.received, ?_, hs.fits, fun hlive => ?_⟩, hs.buffered⟩
  · rw [State.clientWrite, messages_append]
    exact hs.echoed.trans (List.prefix_append _ _)
  · change s.echoed ++ messages (holding s) ++ messages (s.requests ++ [m]) =
      messages (s.sent ++ [m])
    rw [messages_append, messages_append, ← List.append_assoc, hs.complete hlive]

theorem Invariant.clientRead {s s' : State} (hs : Invariant s) {n : Nat} {m : Bytes}
    {ec : ErrorCode} (h : s.clientRead n = some (m, ec, s')) : Invariant s' := by
  obtain ⟨⟨m', ec', rest⟩, hread, heq⟩ := Option.map_eq_some_iff.mp h
  cases heq
  refine ⟨⟨?_, hs.echoed, hs.fits, hs.complete⟩, hs.buffered⟩
  rw [List.append_assoc, readMessage_flatten hread, hs.received]

theorem Invariant.clientClose {s : State} (hs : Invariant s) : Invariant s.clientClose :=
  ⟨⟨hs.received, hs.echoed, hs.fits, hs.complete⟩, hs.buffered⟩

theorem invariant_of_step {s s' : State} {l : Label} (hs : Invariant s)
    (h : step s l = some s') : Invariant s' := by
  have hcomplete := hs.complete
  cases stepped_of_step h with
  | start hchain =>
      simp only [hchain, Chain.live, holding, forall_const] at hcomplete
      exact ⟨⟨hs.received, hs.echoed, hs.fits, fun _ => hcomplete⟩, trivial⟩
  | read m ec rest hchain hread => exact hs.read hchain hread
  | readFailed f hchain => exact hs.of_not_live s.requests s.data (by simp [Chain.live])
  | take length hchain => exact hs.take hchain
  | written length hchain =>
      simp only [hchain, Chain.live, holding, forall_const] at hcomplete
      exact ⟨⟨hs.received, hs.echoed, hs.fits, fun _ => hcomplete⟩, trivial⟩
  | writeFailed f length taken hchain =>
      exact hs.of_not_live s.requests s.data (by simp [Chain.live])
  | readHandler ec length hchain => exact hs.readHandler hchain
  | writeHandler ec hchain => exact hs.writeHandler hchain
  | clientWrite m hclient => exact hs.clientWrite m
  | clientRead n m ec s' hclient hread => exact hs.clientRead hread
  | clientClose => exact hs.clientClose

theorem invariant_start : Invariant {} :=
  ⟨⟨rfl, List.nil_prefix, fun _ hm => absurd hm List.not_mem_nil, fun _ => rfl⟩, trivial⟩

/-- The kernel does not fail the operation, and the message that is read fits
into the buffer. -/
def Harmless (s : State) : Label → Prop
  | .read none => ∀ m ∈ s.requests.head?, m.length ≤ maxLength
  | .read (some _) | .write (some _) => False
  | _ => True

theorem failed_readMessage {n : Nat} {ms rest : List Bytes} {m : Bytes} {ec : ErrorCode}
    (h : readMessage n ms = some (m, ec, rest)) :
    ec.failed = false ↔ ∀ m ∈ ms.head?, m.length ≤ n := by
  cases ms with
  | nil => cases h
  | cons m' ms =>
      rw [readMessage] at h
      split at h
      · next hfits =>
          cases h
          exact iff_of_true rfl (by simpa using hfits)
      · next hfits =>
          cases h
          exact iff_of_false (by decide) (by simpa using hfits)

theorem live_iff_of_step {s s' : State} {l : Label} (hlive : s.chain.live = true)
    (h : step s l = some s') : s'.chain.live = true ↔ Harmless s l := by
  cases stepped_of_step h with
  | start hchain => exact iff_of_true rfl trivial
  | read m ec rest hchain hread =>
      rw [Harmless, ← failed_readMessage hread]
      simp [Chain.live]
  | readFailed f hchain => exact iff_of_false (by simp [Chain.live]) id
  | take length hchain => exact iff_of_true rfl trivial
  | written length hchain => exact iff_of_true rfl trivial
  | writeFailed f length taken hchain => exact iff_of_false (by simp [Chain.live]) id
  | readHandler ec length hchain =>
      simp only [hchain, Chain.live] at hlive
      refine iff_of_true ?_ trivial
      simp only [State.readHandler, State.doWrite, hlive, if_true]
      split <;> rfl
  | writeHandler ec hchain =>
      simp only [hchain, Chain.live] at hlive
      refine iff_of_true ?_ trivial
      simp only [State.writeHandler, State.doRead, hlive, if_true, Chain.live]
  | clientWrite m hclient => exact iff_of_true hlive trivial
  | clientRead n m ec s' hclient hread =>
      obtain ⟨r, -, heq⟩ := Option.map_eq_some_iff.mp hread
      cases heq
      exact iff_of_true hlive trivial
  | clientClose => exact iff_of_true hlive trivial

/-- Whatever the client does and however its steps interleave with those of the
session: what comes back is what was sent, and the session goes on as long as
no operation fails and no message is longer than its buffer. -/
theorem session_echoes (labels : List Label) :
    system.AllStates Echoes {} labels ∧
      (system.AllStates (·.chain.live = true) {} labels ↔
        system.AllSteps Harmless {} labels) := by
  constructor
  · exact System.AllStates.of_invariant (I := Invariant) (fun _ _ _ hs => invariant_of_step hs)
      (fun _ hs => hs.toEchoes) invariant_start labels
  · exact System.allStates_iff_allSteps (I := fun _ => True) (fun _ _ _ _ _ => trivial)
      (fun _ _ _ _ hlive h => live_iff_of_step hlive h) trivial rfl labels

end Winasio.EchoSession
