import Winasio.ThreadProgress

/-!
A client that sends the body of a request through the stream: `async_send`,
`async_write` over `async_write_some`, and `async_recieve_response`. The
composed operation of `async_write` is asio's, and is assumed to do what asio
documents: it repeats `async_write_some` on the rest of the buffer, of which
`transfer_all` lets it take 65536 bytes at once, until all of it is written, a
write fails or a write takes nothing.
-/

namespace Winasio.RequestUpload

open Winasio.Transition
open Winasio.RequestContext
open Winasio.Operation (Outcome)
open Winasio.RequestThreads
open Winasio.ThreadProgress

/-- The asynchronous WinHTTP calls of the client; a write is given the bytes
and how many of them there are. -/
inductive Call where
  | sendRequest (totalLength : UInt32)
  | writeData (data : Bytes) (length : UInt32)
  | receiveResponse
  deriving DecidableEq, Repr

namespace Call

def kind : Call → StepKind
  | .sendRequest _ => .send
  | .writeData _ _ => .writeData
  | .receiveResponse => .recieveResponse

def completion (len : UInt32) : Call → Notification
  | .sendRequest _ => .sendRequestComplete 0
  | .writeData _ _ => .writeComplete sizeofDword len
  | .receiveResponse => .headersAvailable 0

end Call

inductive WriteSomeState where
  | idle
  | writeData
  | done
  deriving DecidableEq, Repr

/-- A completion handler: the coroutine of the client where it awaits one of
its three operations, or a composed operation with the handler it completes.
`totalConsumed` is what `async_write` has written of its buffer. -/
inductive Handler where
  | awaitSend (body : Bytes)
  | awaitWrite
  | awaitResponse
  | asyncWriteSomeOp (data : Bytes) (state : WriteSomeState) (self : Handler)
  | writeOp (data : Bytes) (totalConsumed : Nat) (self : Handler)
  deriving DecidableEq, Repr

/-- The request with what WinHTTP has taken of its body: `took` are the
lengths it has reported, `awaited` the results the client got. -/
structure Request where
  calls : List Call := []
  pending : Option (Call × Handler) := none
  accepted : Bytes := []
  took : List Nat := []
  awaited : List (ErrorCode × Nat) := []
  assertsHold : Bool := true
  deriving DecidableEq, Repr

def defaultMaxTransferSize : Nat := 65536

/-- `transfer_all`: how much the next operation may transfer. -/
def transferAll (ec : ErrorCode) : Nat := if ec.failed then 0 else defaultMaxTransferSize

/-- The part of the buffer that the next operation gets. -/
def prepare (data : Bytes) (totalConsumed maxSize : Nat) : Bytes :=
  (data.drop totalConsumed).take maxSize

namespace Request

def start (r : Request) (c : Call) (h : Handler) : Request :=
  { r with calls := r.calls ++ [c], pending := some (c, h) }

def asyncSend (r : Request) (totalLength : UInt32) (h : Handler) : Request :=
  r.start (.sendRequest totalLength) h

def asyncWriteData (r : Request) (data : Bytes) (length : UInt32) (h : Handler) : Request :=
  r.start (.writeData data length) h

def asyncRecieveResponse (r : Request) (h : Handler) : Request := r.start .receiveResponse h

/-- The operation is called with no error at first, and writes. -/
def asyncWriteSome (r : Request) (data : Bytes) (h : Handler) : Request :=
  r.asyncWriteData data (.ofNat data.length) (.asyncWriteSomeOp data .writeData h)

/-- `async_write` with `transfer_all`: the first write is made also of an
empty buffer. -/
def asyncWrite (r : Request) (data : Bytes) (h : Handler) : Request :=
  r.asyncWriteSome (prepare data 0 (transferAll .success)) (.writeOp data 0 h)

def await (r : Request) (ec : ErrorCode) (len : Nat) : Request :=
  { r with awaited := r.awaited ++ [(ec, len)] }

end Request

def Handler.invoke : Handler → ErrorCode → Nat → Request → Request
  | .awaitSend body, ec, len, r =>
      if ec.failed then r.await ec len else (r.await ec len).asyncWrite body .awaitWrite
  | .awaitWrite, ec, len, r =>
      if ec.failed then r.await ec len
      else (r.await ec len).asyncRecieveResponse .awaitResponse
  | .awaitResponse, ec, len, r => r.await ec len
  | .asyncWriteSomeOp data state self, ec, len, r =>
      if ec.failed then self.invoke ec len r
      else
        match state with
        | .idle =>
            r.asyncWriteData data (.ofNat data.length) (.asyncWriteSomeOp data .writeData self)
        | .writeData => self.invoke ec len r
        | .done => { r with assertsHold := false }
  | .writeOp data totalConsumed self, ec, len, r =>
      let totalConsumed := totalConsumed + len
      if (!ec.failed && len == 0) || data.length ≤ totalConsumed then
        self.invoke ec totalConsumed r
      else
        let maxSize := transferAll ec
        if maxSize = 0 then self.invoke ec totalConsumed r
        else r.asyncWriteSome (prepare data totalConsumed maxSize)
          (.writeOp data totalConsumed self)

theorem Request.asyncWriteSome_eq (r : Request) (data : Bytes) (h : Handler) :
    r.asyncWriteSome data h = (Handler.asyncWriteSomeOp data .idle h).invoke .success 0 r := rfl

/-- The client up to its first suspension. -/
def upload (body : Bytes) : Request :=
  ({} : Request).asyncSend (.ofNat body.length) (.awaitSend body)

def resume (r : Request) (args : ErrorCode × Option Nat) : Request :=
  match r.pending with
  | none => r
  | some (_, h) => h.invoke args.1 (args.2.getD 0) { r with pending := none }

/-- WinHTTP takes no more of a write than it was given. -/
def admits : Call → Outcome → Bool
  | .writeData _ n, .completed len _ => len.toNat ≤ n.toNat
  | _, _ => true

def store (r : Request) : Call → Outcome → Request
  | .writeData data _, .completed len _ =>
      { r with accepted := r.accepted ++ data.take len.toNat, took := r.took ++ [len.toNat] }
  | _, _ => r

theorem matches_completion (c : Call) (len : UInt32) :
    c.kind.Matches (c.completion len) = true := by
  cases c <;> rfl

theorem pending_store (r : Request) (c : Call) (o : Outcome) :
    (store r c o).pending = r.pending := by
  cases c with
  | sendRequest => rfl
  | receiveResponse => rfl
  | writeData => cases o <;> rfl

def client : Program Request Call where
  kind := Call.kind
  completion c len _ := c.completion len
  completion_matches c len _ := matches_completion c len
  waiting r := r.pending.map Prod.fst
  admits _ := admits
  admits_failed _ c _ := by cases c <;> rfl
  store := store
  waiting_store r c o := by rw [pending_store]
  resume := resume

/-- What the client can rely on at any time: WinHTTP has the beginning of the
body, `async_write` reports how much that is and, unless a write took nothing,
succeeds only with the whole body, the length of every write fits its parameter,
and the response is awaited only after the write has succeeded. The total length
that is announced is the length of the body as far as it fits. -/
structure Uploads (body : Bytes) (r : Request) : Prop where
  accepted : r.accepted <+: body
  written : ∀ ec n, r.awaited[1]? = some (ec, n) →
    n = r.accepted.length ∧ (ec.failed = false → r.accepted = body ∨ 0 ∈ r.took)
  lengths : ∀ data n, .writeData data n ∈ r.calls → n.toNat = data.length
  total : ∀ n, .sendRequest n ∈ r.calls → n.toNat = body.length % 2 ^ 32
  received : .receiveResponse ∈ r.calls → ∃ n, r.awaited[1]? = some (.success, n)
  assertsHold : r.assertsHold = true

/-- The client between two calls, with what it has awaited. -/
structure Between (body : Bytes) (total : Nat) (awaited : List (ErrorCode × Nat))
    (r : Request) : Prop where
  pending : r.pending = none
  awaited : r.awaited = awaited
  accepted : r.accepted = body.take total
  total_le : total ≤ body.length
  uploads : Uploads body r

def sent : List (ErrorCode × Nat) := [(.success, 0)]

/-- The operations are over: one of them failed, or all three are done. -/
def Finished (r : Request) : Prop :=
  r.pending = none ∧ ((∃ x ∈ r.awaited, x.1.failed = true) ∨ r.awaited.length = 3)

inductive Stage (body : Bytes) : Request → Prop
  | sending : Stage body (upload body)
  | writing {r : Request} {total : Nat} : Between body total sent r →
      Stage body (r.asyncWriteSome (prepare body total defaultMaxTransferSize)
        (.writeOp body total .awaitWrite))
  | receiving {r : Request} {total : Nat} :
      Between body total (sent ++ [(.success, total)]) r →
      Stage body (r.asyncRecieveResponse .awaitResponse)
  | ended {r : Request} : Uploads body r → Finished r → Stage body r

theorem handlerArgs_getD (c : Call) (o : Outcome) :
    (c.kind.handlerArgs (client.result c o)).2.getD 0 = (client.result c o).2 := by
  cases c <;> cases o <;> rfl

/-- The client has been called back: the call is over, and WinHTTP has taken
what it reports. -/
def replied (r : Request) (c : Call) (o : Outcome) : Request :=
  { store r c o with calls := r.calls ++ [c] }

theorem handle_start {r : Request} (hr : r.pending = none) (c : Call) (h : Handler)
    (o : Outcome) :
    client.handle (r.start c h) c o =
      h.invoke (client.result c o).1 (client.result c o).2 (replied r c o) := by
  have hstore : store (r.start c h) c o = { replied r c o with pending := some (c, h) } := by
    cases c with
    | sendRequest => rfl
    | receiveResponse => rfl
    | writeData => cases o <;> rfl
  have hreplied : { replied r c o with pending := none } = replied r c o := by
    rw [← hr, ← pending_store r c o]
    rfl
  rw [← handlerArgs_getD c o]
  change resume (store (r.start c h) c o) _ = _
  rw [hstore, ← hreplied]
  rfl

theorem answer_start {r s : Request} (c : Call) (h : Handler) {o : Outcome}
    (hs : client.answer (r.start c h) o = some s) :
    admits c o = true ∧ client.handle (r.start c h) c o = s := by
  obtain ⟨c', hc, hs⟩ := Option.bind_eq_some_iff.mp hs
  cases hc
  obtain ⟨hadmits, heq⟩ := Option.ite_none_right_eq_some.mp hs
  exact ⟨hadmits, Option.some.inj heq⟩

/-- How many answers the client can still get. -/
def workload (body : Bytes) (r : Request) : Nat :=
  match r.pending with
  | none => 0
  | some (.receiveResponse, _) => 1
  | some (.writeData _ _, _) => body.length - r.accepted.length + 2
  | some (.sendRequest _, _) => body.length + 3

theorem replied_of_fails {c : Call} {o : Outcome} {e : Failure} (ho : o.Fails e) (r : Request) :
    replied r c o = { r with calls := r.calls ++ [c] } ∧ client.result c o = (e.val, 0) := by
  rcases ho with rfl | rfl <;> cases c <;> exact ⟨rfl, rfl⟩

theorem replied_of_completed {c : Call} (hc : ∀ data n, c ≠ .writeData data n) (r : Request)
    (len : UInt32) (data : Bytes) :
    replied r c (.completed len data) = { r with calls := r.calls ++ [c] } ∧
      client.result c (.completed len data) = (.success, 0) := by
  cases c with
  | sendRequest => exact ⟨rfl, rfl⟩
  | receiveResponse => exact ⟨rfl, rfl⟩
  | writeData data n => exact absurd rfl (hc data n)

/-- A call that is not awaited yet changes nothing for the client, if it is
made at the right time. -/
theorem Uploads.call {body : Bytes} {r : Request} (hr : Uploads body r) (c : Call)
    (hlength : ∀ data n, c = .writeData data n → n.toNat = data.length)
    (htotal : ∀ n, c = .sendRequest n → n.toNat = body.length % 2 ^ 32)
    (hreceive : c = .receiveResponse → ∃ n, r.awaited[1]? = some (.success, n)) :
    Uploads body { r with calls := r.calls ++ [c] } where
  accepted := hr.accepted
  written := hr.written
  lengths data n hmem := by
    rcases List.mem_append.mp hmem with hmem | hmem
    · exact hr.lengths data n hmem
    · exact hlength data n (List.mem_singleton.mp hmem).symm
  total n hmem := by
    rcases List.mem_append.mp hmem with hmem | hmem
    · exact hr.total n hmem
    · exact htotal n (List.mem_singleton.mp hmem).symm
  received hmem := by
    rcases List.mem_append.mp hmem with hmem | hmem
    · exact hr.received hmem
    · exact hreceive (List.mem_singleton.mp hmem).symm
  assertsHold := hr.assertsHold

theorem Uploads.suspended {body : Bytes} {r : Request} (hr : Uploads body r)
    (pending : Option (Call × Handler)) : Uploads body { r with pending } :=
  ⟨hr.accepted, hr.written, hr.lengths, hr.total, hr.received, hr.assertsHold⟩

/-- Awaiting a result changes nothing for the client, if it is not that of the
write or says how much was written. -/
theorem Uploads.await {body : Bytes} {r : Request} (hr : Uploads body r) (ec : ErrorCode)
    (len : Nat) (hwritten : r.awaited.length = 1 → len = r.accepted.length ∧
      (ec.failed = false → r.accepted = body ∨ 0 ∈ r.took)) :
    Uploads body (r.await ec len) where
  accepted := hr.accepted
  written ec' n hn := by
    change (r.awaited ++ [(ec, len)])[1]? = _ at hn
    rcases Nat.lt_trichotomy r.awaited.length 1 with hlt | heq | hgt
    · rw [List.getElem?_eq_none (by rw [List.length_append, List.length_singleton]; omega)] at hn
      cases hn
    · rw [← heq, List.getElem?_concat_length] at hn
      cases hn
      exact hwritten heq
    · rw [List.getElem?_append_left hgt] at hn
      exact hr.written ec' n hn
  lengths := hr.lengths
  total := hr.total
  received hmem := by
    obtain ⟨n, hn⟩ := hr.received hmem
    have hlt : 1 < r.awaited.length := (List.getElem?_eq_some_iff.mp hn).1
    exact ⟨n, (List.getElem?_append_left hlt).trans hn⟩
  assertsHold := hr.assertsHold

theorem length_prepare_le (body : Bytes) (total : Nat) :
    (prepare body total defaultMaxTransferSize).length ≤ 65536 := by
  simp [prepare, defaultMaxTransferSize]

/-- The length of a write fits its parameter. -/
theorem toNat_length_prepare (body : Bytes) (total : Nat) :
    (UInt32.ofNat (prepare body total defaultMaxTransferSize).length).toNat =
      (prepare body total defaultMaxTransferSize).length := by
  have := length_prepare_le body total
  rw [UInt32.toNat_ofNat']
  omega

theorem uploads_initial (body : Bytes) : Uploads body {} where
  accepted := List.nil_prefix
  written ec n hn := by cases hn
  lengths data n hmem := by cases hmem
  total n hmem := by cases hmem
  received hmem := by cases hmem
  assertsHold := rfl

/-- The total length is announced to `async_send`. -/
theorem uploads_sending (body : Bytes) :
    Uploads body { calls := [.sendRequest (.ofNat body.length)] } := by
  refine (uploads_initial body).call (.sendRequest (.ofNat body.length)) nofun ?_ nofun
  intro n h
  cases h
  exact UInt32.toNat_ofNat'

theorem stage_failed {body : Bytes} {r : Request} {e : Failure} {len : Nat}
    (hr : Uploads body (r.await e.val len)) (hpending : r.pending = none) :
    Stage body (r.await e.val len) ∧ workload body (r.await e.val len) = 0 := by
  refine ⟨.ended hr ⟨hpending, .inl ⟨(e.val, len), ?_, e.failed⟩⟩, ?_⟩
  · exact List.mem_append_right _ (List.mem_singleton_self _)
  · rw [workload, show (r.await e.val len).pending = none from hpending]

theorem fails_or_completed (o : Outcome) :
    (∃ e, o.Fails e) ∨ ∃ len data, o = .completed len data := by
  rcases o with e | e | ⟨len, data⟩
  · exact .inl ⟨e, .inl rfl⟩
  · exact .inl ⟨e, .inr rfl⟩
  · exact .inr ⟨len, data, rfl⟩

theorem workload_asyncWriteSome (body : Bytes) (r : Request) (data : Bytes) (h : Handler) :
    workload body (r.asyncWriteSome data h) = body.length - r.accepted.length + 2 := rfl

theorem invoke_writeOp_of_failed {ec : ErrorCode} (hec : ec.failed = true) (data : Bytes)
    (total : Nat) (self : Handler) (r : Request) :
    (Handler.writeOp data total self).invoke ec 0 r = self.invoke ec total r := by
  simp only [Handler.invoke, transferAll, hec, Nat.add_zero, if_true]
  split <;> rfl

/-- After a write `async_write` goes on exactly if there is more to write and
this one took something. -/
theorem invoke_writeOp_success (data : Bytes) (total len : Nat) (self : Handler) (r : Request) :
    (Handler.writeOp data total self).invoke .success len r =
      if len = 0 ∨ data.length ≤ total + len then self.invoke .success (total + len) r
      else r.asyncWriteSome (prepare data (total + len) defaultMaxTransferSize)
        (.writeOp data (total + len) self) := by
  simp [Handler.invoke, transferAll, defaultMaxTransferSize]

theorem take_prepare (body : Bytes) (total : Nat) {len : Nat}
    (hlen : len ≤ (prepare body total defaultMaxTransferSize).length) :
    body.take total ++ (prepare body total defaultMaxTransferSize).take len =
      body.take (total + len) := by
  have := length_prepare_le body total
  rw [prepare, List.take_take, Nat.min_eq_left (by unfold defaultMaxTransferSize; omega),
    List.take_add]

theorem stage_sending {body : Bytes} {r : Request} {o : Outcome}
    (hs : client.answer (upload body) o = some r) :
    Stage body r ∧ workload body r < body.length + 3 := by
  obtain ⟨-, rfl⟩ := answer_start _ _ hs
  rw [handle_start rfl]
  have hcalled := uploads_sending body
  rcases fails_or_completed o with ⟨e, ho⟩ | ⟨len, data, rfl⟩
  · obtain ⟨hreplied, hresult⟩ := replied_of_fails
      (c := .sendRequest (.ofNat body.length)) ho {}
    rw [hreplied, hresult, Handler.invoke, if_pos e.failed]
    obtain ⟨hstage, hworkload⟩ := stage_failed (hcalled.await e.val 0 nofun) rfl
    exact ⟨hstage, hworkload.trans_lt (by omega)⟩
  · obtain ⟨hreplied, hresult⟩ := replied_of_completed
      (c := .sendRequest (.ofNat body.length)) nofun {} len data
    rw [hreplied, hresult, Handler.invoke, if_neg (by simp)]
    have hsent : Between body 0 sent (({ ({} : Request) with
        calls := [.sendRequest (.ofNat body.length)] } : Request).await .success 0) :=
      ⟨rfl, rfl, rfl, Nat.zero_le _, hcalled.await .success 0 nofun⟩
    exact ⟨.writing hsent, (workload_asyncWriteSome body _ _ _).trans_lt (by omega)⟩

/-- WinHTTP takes more of the body before the write is awaited. -/
theorem Uploads.take {body : Bytes} {r : Request} (hr : Uploads body r)
    (hawaited : r.awaited = sent) {accepted : Bytes} (haccepted : accepted <+: body)
    (took : List Nat) : Uploads body { r with accepted, took } where
  accepted := haccepted
  written ec n hn := by
    rw [hawaited] at hn
    cases hn
  lengths := hr.lengths
  total := hr.total
  received := hr.received
  assertsHold := hr.assertsHold

theorem Between.length_accepted {body : Bytes} {r : Request} {total : Nat}
    {awaited : List (ErrorCode × Nat)} (hr : Between body total awaited r) :
    r.accepted.length = total := by
  rw [hr.accepted, List.length_take, Nat.min_eq_left hr.total_le]

theorem length_prepare_le_sub (body : Bytes) (total : Nat) :
    (prepare body total defaultMaxTransferSize).length ≤ body.length - total := by
  rw [prepare, List.length_take, List.length_drop]
  exact Nat.min_le_right _ _

/-- The client between two writes, the last of which took `len` bytes. -/
theorem Between.wrote {body : Bytes} {r : Request} {total : Nat} (hr : Between body total sent r)
    {c : Call} (hcalled : Uploads body { r with calls := r.calls ++ [c] }) {len : Nat}
    (hlen : len ≤ (prepare body total defaultMaxTransferSize).length) :
    Between body (total + len) sent
      { r with
        accepted := r.accepted ++ (prepare body total defaultMaxTransferSize).take len
        took := r.took ++ [len]
        calls := r.calls ++ [c] } := by
  have haccepted : r.accepted ++ (prepare body total defaultMaxTransferSize).take len =
      body.take (total + len) := by
    rw [hr.accepted, take_prepare body total hlen]
  have := length_prepare_le_sub body total
  have := hr.total_le
  refine ⟨hr.pending, hr.awaited, haccepted, by omega, ?_⟩
  exact hcalled.take hr.awaited (haccepted ▸ List.take_prefix _ _) _

/-- The write is over: it has written everything, or took nothing. -/
theorem Between.written {body : Bytes} {r : Request} {total : Nat}
    (hr : Between body total sent r) (hover : body.length ≤ total ∨ 0 ∈ r.took) :
    Between body total (sent ++ [(.success, total)]) (r.await .success total) := by
  refine ⟨hr.pending, ?_, hr.accepted, hr.total_le, hr.uploads.await _ _ fun _ => ?_⟩
  · rw [Request.await, hr.awaited]
  · refine ⟨hr.length_accepted.symm, fun _ => hover.imp_left fun hle => ?_⟩
    rw [hr.accepted, List.take_of_length_le hle]

theorem Between.writing {body : Bytes} {r : Request} {total : Nat}
    (hr : Between body total sent r) :
    Uploads body { r with
      calls := r.calls ++ [.writeData (prepare body total defaultMaxTransferSize)
        (.ofNat (prepare body total defaultMaxTransferSize).length)] } := by
  refine hr.uploads.call _ (fun data n h => ?_) nofun nofun
  cases h
  exact toNat_length_prepare body total

theorem Between.receiving {body : Bytes} {r : Request} {total : Nat}
    (hr : Between body total (sent ++ [(.success, total)]) r) :
    Uploads body { r with calls := r.calls ++ [.receiveResponse] } :=
  hr.uploads.call .receiveResponse nofun nofun fun _ => ⟨total, by rw [hr.awaited]; rfl⟩

theorem stage_writing {body : Bytes} {r s : Request} {total : Nat} {o : Outcome}
    (hr : Between body total sent r)
    (hs : client.answer (r.asyncWriteSome (prepare body total defaultMaxTransferSize)
      (.writeOp body total .awaitWrite)) o = some s) :
    Stage body s ∧ workload body s < body.length - total + 2 := by
  obtain ⟨hadmits, rfl⟩ := answer_start _ _ hs
  rw [handle_start hr.pending]
  have hlength := toNat_length_prepare body total
  have hcalled := hr.writing
  rcases fails_or_completed o with ⟨e, ho⟩ | ⟨len, data, rfl⟩
  · obtain ⟨hreplied, hresult⟩ := replied_of_fails ho r
    rw [hreplied, hresult, Handler.invoke, if_pos e.failed, invoke_writeOp_of_failed e.failed,
      Handler.invoke, if_pos e.failed]
    obtain ⟨hstage, hworkload⟩ := stage_failed
      (hcalled.await e.val total fun _ => ⟨hr.length_accepted.symm, by simp⟩) hr.pending
    exact ⟨hstage, hworkload.trans_lt (by omega)⟩
  · have hlen : len.toNat ≤ (prepare body total defaultMaxTransferSize).length :=
      hlength ▸ of_decide_eq_true hadmits
    have hwrote := hr.wrote hcalled hlen
    change Stage body ((Handler.asyncWriteSomeOp _ _ _).invoke .success len.toNat _) ∧
      workload body ((Handler.asyncWriteSomeOp _ _ _).invoke .success len.toNat _) < _
    rw [Handler.invoke, if_neg (by simp)]
    rw [invoke_writeOp_success]
    by_cases hover : len.toNat = 0 ∨ body.length ≤ total + len.toNat
    · rw [if_pos hover, Handler.invoke, if_neg (by simp)]
      refine ⟨.receiving (hwrote.written ?_), by change 1 < _; omega⟩
      exact hover.symm.imp_right fun hzero => List.mem_append_right _ (by simp [hzero])
    · rw [if_neg hover]
      refine ⟨.writing hwrote, (workload_asyncWriteSome body _ _ _).trans_lt ?_⟩
      rw [show (replied r _ (.completed len data)).accepted.length = total + len.toNat from
        hwrote.length_accepted]
      omega

theorem stage_receiving {body : Bytes} {r s : Request} {total : Nat} {o : Outcome}
    (hr : Between body total (sent ++ [(.success, total)]) r)
    (hs : client.answer (r.asyncRecieveResponse .awaitResponse) o = some s) :
    Stage body s ∧ workload body s < 1 := by
  obtain ⟨-, rfl⟩ := answer_start _ _ hs
  rw [handle_start hr.pending]
  have hcalled := hr.receiving
  have hlength : r.awaited.length = 2 := by rw [hr.awaited]; rfl
  rcases fails_or_completed o with ⟨e, ho⟩ | ⟨len, data, rfl⟩
  · obtain ⟨hreplied, hresult⟩ := replied_of_fails ho r
    rw [hreplied, hresult, Handler.invoke]
    obtain ⟨hstage, hworkload⟩ := stage_failed
      (hcalled.await e.val 0 fun hone => absurd (hlength.symm.trans hone) (by decide)) hr.pending
    exact ⟨hstage, hworkload.trans_lt (by omega)⟩
  · obtain ⟨hreplied, hresult⟩ := replied_of_completed (c := .receiveResponse) nofun r len data
    rw [hreplied, hresult, Handler.invoke]
    refine ⟨.ended (hcalled.await .success 0 fun hone =>
      absurd (hlength.symm.trans hone) (by decide)) ⟨hr.pending, .inr ?_⟩, ?_⟩
    · rw [Request.await, List.length_append, hlength]
      rfl
    · rw [workload, Request.await, hr.pending]
      exact Nat.zero_lt_one

theorem workload_writing {body : Bytes} {r : Request} {total : Nat}
    (hr : Between body total sent r) :
    workload body (r.asyncWriteSome (prepare body total defaultMaxTransferSize)
      (.writeOp body total .awaitWrite)) = body.length - total + 2 := by
  rw [workload_asyncWriteSome, hr.length_accepted]

theorem answer_of_pending_none {r : Request} (hr : r.pending = none) (o : Outcome) :
    client.answer r o = none := by
  change (r.pending.map Prod.fst).bind _ = none
  rw [hr]
  rfl

theorem stage_step {body : Bytes} {r s : Request} {o : Outcome} (hr : Stage body r)
    (hs : client.answer r o = some s) : Stage body s ∧ workload body s < workload body r := by
  cases hr with
  | sending => exact stage_sending hs
  | writing hr => exact workload_writing hr ▸ stage_writing hr hs
  | receiving hr => exact stage_receiving hr hs
  | ended hr hfinished =>
      rw [answer_of_pending_none hfinished.1] at hs
      cases hs

theorem stage_progress {body : Bytes} {r : Request} (hr : Stage body r) (hend : ¬ Finished r) :
    ∃ o s, client.answer r o = some s := by
  cases hr with
  | sending => exact ⟨.completed 0 [], _, rfl⟩
  | writing hr => exact ⟨.completed 0 [], _, rfl⟩
  | receiving hr => exact ⟨.completed 0 [], _, rfl⟩
  | ended hr hfinished => exact absurd hfinished hend

/-- Within an answer for every byte of the body and three more the client has
finished. -/
theorem within_finished (body : Bytes) :
    client.sequential.Within (fun r => Stage body r ∧ Finished r) (body.length + 3)
      (upload body) := by
  refine System.within_of_measure (I := Stage body) (workload body) (fun r hr hend => ?_)
    (fun r o s hr _ hs => ?_) .sending
  · exact stage_progress hr fun hfinished => hend ⟨hr, hfinished⟩
  · exact stage_step hr hs

theorem Stage.uploads {body : Bytes} {r : Request} (hr : Stage body r) : Uploads body r := by
  cases hr with
  | sending =>
      exact (uploads_sending body).suspended _
  | writing hr => exact hr.writing.suspended _
  | receiving hr => exact hr.receiving.suspended _
  | ended hr hfinished => exact hr

/-- What WinHTTP takes of a write before the handler runs is the beginning of
the body too. -/
theorem Stage.uploads_store {body : Bytes} {r : Request} {c : Call} {o : Outcome}
    (hr : Stage body r) (hc : client.waiting r = some c) (ho : admits c o = true) :
    Uploads body (store r c o) := by
  cases hr with
  | sending =>
      cases hc
      exact (Stage.sending : Stage body _).uploads
  | receiving hr =>
      cases hc
      exact hr.receiving.suspended _
  | ended hr hfinished =>
      change r.pending.map Prod.fst = some c at hc
      rw [hfinished.1] at hc
      cases hc
  | writing hr =>
      cases hc
      rcases fails_or_completed o with ⟨e, rfl | rfl⟩ | ⟨len, data, rfl⟩
      · exact hr.writing.suspended _
      · exact hr.writing.suspended _
      · have hlen := toNat_length_prepare body _ ▸ of_decide_eq_true ho
        exact (hr.wrote hr.writing hlen).uploads.suspended _

theorem stage_run {body : Bytes} {r s : Request} {script : List Outcome} (hr : Stage body r)
    (hrun : client.sequential.run r script = some s) : Stage body s :=
  System.run_preserves (P := Stage body) (fun _ _ _ hr hs => (stage_step hr hs).1) hr hrun

theorem uploads_of_at {body : Bytes} {r : Request} {script : List Outcome} {t : Threads Request}
    (hr : Stage body r) (ht : At client r script t) : Uploads body t.program := by
  obtain ⟨rest, -, hstands⟩ := ht.stands
  obtain ⟨p, s, answers⟩ := t
  dsimp only at hstands ⊢
  cases hstands with
  | finished | called => exact hr.uploads
  | answered hw ho | lost hw ho => exact hr.uploads_store hw ho

theorem program_of_finished {r : Request} {script : List Outcome} {t : Threads Request}
    (hr : Finished r) (ht : At client r script t) : t.program = r := by
  obtain ⟨rest, -, hstands⟩ := ht.stands
  have hwaiting : client.waiting r = none := by
    change r.pending.map Prod.fst = none
    rw [hr.1]
    rfl
  obtain ⟨p, s, answers⟩ := t
  dsimp only at hstands ⊢
  cases hstands with
  | finished | called => rfl
  | answered hw ho | lost hw ho => cases hwaiting.symm.trans hw

/-- On every interleaving of the two threads the stream uploads the body: what
WinHTTP has is the beginning of it, and what the client gets says how much
that is. If WinHTTP keeps its promises the client finishes, after at most
thirteen actions for every answer. -/
theorem upload_interleaved (body : Bytes) (labels : List Label) :
    (threads client).AllStates
        (fun t => t.protocol.assertsHold = true ∧ Uploads body t.program)
        (RequestThreads.start client (upload body)) labels ∧
      (calmThreads client).Within (fun t => Uploads body t.program ∧ Finished t.program)
        (13 * (body.length + 4)) (RequestThreads.start client (upload body)) := by
  constructor
  · refine System.AllStates.of_invariant (fun _ _ _ => follows_step) (fun t ht => ?_)
      ⟨_, [], rfl, at_start _ _⟩ labels
    obtain ⟨r, script, hrun, hat⟩ := ht
    exact ⟨hat.phase.assertsHold, uploads_of_at (stage_run .sending hrun) hat⟩
  · have hstart : AtWork client (upload body) [] (RequestThreads.start client (upload body)) :=
      ⟨at_start client _, lively_issue rfl _ _⟩
    have hweight : weight (RequestThreads.start client (upload body)).protocol ≤ 13 :=
      weight_issue_le _ _ rfl
    have hwithin := within_of_sequential (within_finished body) hstart
    refine (hwithin.mono fun t ht => ?_).weaken (by omega)
    obtain ⟨r, script, ⟨hstage, hfinished⟩, hat⟩ := ht
    have hprogram := program_of_finished hfinished hat.toAt
    exact ⟨hprogram ▸ hstage.uploads, hprogram ▸ hfinished⟩

end Winasio.RequestUpload
