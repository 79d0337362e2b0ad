import Mathlib.Algebra.Group.Nat.Defs
import Winasio.Basic
import Winasio.DynamicBuffer
import Winasio.Transition

/-!
The handle of a request queue of HTTP.sys, and the operations that are
composed of its overlapped calls. An operation owns its dynamic buffer and has
at most one call outstanding, so a world holds one buffer.
-/

namespace Winasio.QueueHandle

open Winasio.Transition

/-- What the code uses of the layout of `HTTP_REQUEST`. -/
structure Layout where
  sizeofHttpRequest : Nat
  requestIdOffset : Nat
  requestId_le : requestIdOffset + 8 ≤ sizeofHttpRequest
  initialSize_lt : sizeofHttpRequest + 1024 < 2 ^ 32

def Layout.x64 : Layout := ⟨864, 16, by decide, by decide⟩

abbrev RequestId : Type := Bytes

namespace Layout

/-- The `RequestId` of the request in a buffer; what lies outside of the buffer
is missing. -/
def requestId (L : Layout) (room : Bytes) : RequestId := (room.drop L.requestIdOffset).take 8

/-- `HTTP_SET_NULL_ID` on the `RequestId` of the request in a buffer. -/
def setNullId (L : Layout) (room : Bytes) : Bytes :=
  room.take L.requestIdOffset ++ List.replicate 8 0 ++ room.drop (L.requestIdOffset + 8)

theorem requestId_congr (L : Layout) {xs ys : Bytes} {n : Nat} (hn : L.sizeofHttpRequest ≤ n)
    (h : xs.take n = ys.take n) : L.requestId xs = L.requestId ys := by
  have hfits := L.requestId_le
  have htake : ∀ zs : Bytes, L.requestId zs = L.requestId (zs.take n) := by
    intro zs
    rw [requestId, requestId, List.drop_take, List.take_take]
    congr 1
    omega
  rw [htake xs, h, ← htake ys]

theorem length_setNullId (L : Layout) {room : Bytes} (h : L.sizeofHttpRequest ≤ room.length) :
    (L.setNullId room).length = room.length := by
  have hfits := L.requestId_le
  simp only [setNullId, List.length_append, List.length_take, List.length_replicate,
    List.length_drop]
  omega

end Layout

inductive Api where
  | receiveHttpRequest
  | receiveRequestEntityBody
  deriving DecidableEq, Repr

/-- `HTTP_RECEIVE_REQUEST_ENTITY_BODY_FLAG_FILL_BUFFER`. -/
def fillBuffer : UInt32 := 1

structure Call where
  api : Api
  id : RequestId
  flags : UInt32
  nonNull : Bool
  length : UInt32
  deriving DecidableEq, Repr

/-- What HTTP.sys does with a call: the value it returns, the bytes it stores
at the beginning of the buffer, and the status and the length of the
completion packet, which is queued if the call returns `NO_ERROR` or
`ERROR_IO_PENDING`. -/
structure Report where
  result : UInt32
  written : Bytes := []
  status : UInt32 := 0
  length : UInt32 := 0
  deriving DecidableEq, Repr

namespace Report

def queued (r : Report) : Bool := r.result = 0 || r.result = ErrorCode.ioPending

/-- The outcome of the call, whichever way it is reported. -/
def code (r : Report) : UInt32 := if r.queued then r.status else r.result

def len (r : Report) : Nat := if r.queued then r.length.toNat else 0

end Report

/-- What becomes of the `overlapped_ptr`: the kernel takes it over, or it posts
the handler itself. -/
inductive Overlapped where
  | released
  | completed (ec : ErrorCode) (len : Nat)
  deriving DecidableEq, Repr

def Overlapped.posted : Overlapped → List (ErrorCode × Nat)
  | .released => []
  | .completed ec len => [(ec, len)]

def asyncRecieveRequest (result : UInt32) : Overlapped :=
  if result = 0 then .released
  else if result = ErrorCode.ioPending then .released
  else .completed ⟨result⟩ 0

def asyncRecieveBody (result : UInt32) : Overlapped :=
  if result = ErrorCode.ioPending then .released
  else if result = 0 then .released
  else .completed ⟨result⟩ 0

def Api.overlapped : Api → UInt32 → Overlapped
  | .receiveHttpRequest => asyncRecieveRequest
  | .receiveRequestEntityBody => asyncRecieveBody

/-- `BOOST_ASSERT(result != ERROR_INSUFFICIENT_BUFFER)`. -/
def Api.asserts : Api → UInt32 → Bool
  | .receiveHttpRequest, result => result ≠ ErrorCode.insufficientBuffer
  | .receiveRequestEntityBody, _ => true

/-- The completions of a call: the packet of the kernel, and the one the code
posts. -/
def completions (api : Api) (r : Report) : List (ErrorCode × Nat) :=
  (if r.queued then [(⟨r.status⟩, r.length.toNat)] else []) ++ (api.overlapped r.result).posted

theorem completions_eq (api : Api) (r : Report) : completions api r = [(⟨r.code⟩, r.len)] := by
  by_cases hzero : r.result = 0
  · cases api <;>
      simp [completions, Report.queued, Report.code, Report.len, Api.overlapped,
        asyncRecieveRequest, asyncRecieveBody, Overlapped.posted, hzero]
  · by_cases hpending : r.result = ErrorCode.ioPending
    · cases api <;>
        simp [completions, Report.queued, Report.code, Report.len, Api.overlapped,
          asyncRecieveRequest, asyncRecieveBody, Overlapped.posted, hpending]
    · cases api <;>
        simp [completions, Report.queued, Report.code, Report.len, Api.overlapped,
          asyncRecieveRequest, asyncRecieveBody, Overlapped.posted, hzero, hpending]

inductive ReceiveState where
  | idle
  | recieving
  deriving DecidableEq, Repr

/-- A completion handler: the token of the user, or an operation that was moved
into the handler, with the handler it completes itself. -/
inductive Handler where
  | token
  | asyncReceiveOp (state : ReceiveState) (self : Handler)
  | asyncReceiveBodyOp (id : RequestId) (bodySizeHint : Nat) (state : ReceiveState)
      (self : Handler)
  deriving DecidableEq, Repr

/-- The buffer of an operation with its calls: those HTTP.sys has answered, in
their order, and those it has not. Without `NDEBUG` a failing assertion ends
the program, with it the assertion is not there. -/
structure World where
  ndebug : Bool
  buffer : DynamicBuffer UInt8 := {}
  answered : List (Call × Report) := []
  pending : List (Call × Handler) := []
  handled : List (ErrorCode × Nat) := []
  assertsHold : Bool := true
  deriving DecidableEq, Repr

namespace World

/-- `BOOST_ASSERT` in front of what follows. -/
def check (w : World) (condition : Bool) (next : World → World) : World :=
  if condition then next w
  else if w.ndebug then next { w with assertsHold := false }
  else { w with assertsHold := false }

def pend (w : World) (c : Call) (h : Handler) : World :=
  { w with pending := w.pending ++ [(c, h)] }

def requestCall (w : World) (L : Layout) : Call where
  api := .receiveHttpRequest
  id := L.requestId w.buffer.spare
  flags := 0
  nonNull := w.buffer.vector ≠ []
  length := .ofNat w.buffer.spare.length

/-- The room of a call for a request; the first call asks for any request. -/
def prepareRequest (w : World) (L : Layout) (len : Nat) (init : Bool) : World :=
  let b := w.buffer.prepare len
  { w with buffer := if init then { b with spare := L.setNullId b.spare } else b }

def recieve (w : World) (L : Layout) (h : Handler) (len : Nat) (init : Bool) : World :=
  let w := w.prepareRequest L len init
  w.pend (w.requestCall L) h

def bodyCall (w : World) (id : RequestId) : Call where
  api := .receiveRequestEntityBody
  id
  flags := fillBuffer
  nonNull := w.buffer.vector ≠ []
  length := .ofNat w.buffer.spare.length

def recieveBody (w : World) (h : Handler) (id : RequestId) (len : Nat) : World :=
  let w := { w with buffer := w.buffer.prepare len }
  w.pend (w.bodyCall id) h

end World

/-- Invoke a handler. A suspended operation runs its `operator()`, in which
`self.complete` invokes the handler it holds. -/
def Handler.invoke (L : Layout) : Handler → ErrorCode → Nat → World → World
  | .token, ec, len, w => { w with handled := w.handled ++ [(ec, len)] }
  | .asyncReceiveOp state self, ec, len, w =>
      match state with
      | .idle =>
          if ec.failed then self.invoke L ec len w
          else w.recieve L (.asyncReceiveOp .recieving self) (L.sizeofHttpRequest + 1024) true
      | .recieving =>
          if ec.failed then
            if ec.value = ErrorCode.handleEof then self.invoke L .success len w
            else if ec.value = ErrorCode.moreData then
              w.check (len > w.buffer.size) fun w =>
                w.recieve L (.asyncReceiveOp .recieving self) len false
            else self.invoke L ec len w
          else self.invoke L ec len { w with buffer := w.buffer.commit len }
  | .asyncReceiveBodyOp id bodySizeHint state self, ec, len, w =>
      match state with
      | .idle =>
          if ec.failed then self.invoke L ec len w
          else
            w.recieveBody (.asyncReceiveBodyOp id bodySizeHint .recieving self) id bodySizeHint
      | .recieving =>
          if ec.failed then
            if ec.value = ErrorCode.handleEof then
              self.invoke L .success len { w with buffer := w.buffer.commit len }
            else self.invoke L ec len w
          else
            let w := { w with buffer := w.buffer.commit len }
            -- a reply that does not fill the hint is taken for the last one
            w.recieveBody (.asyncReceiveBodyOp id bodySizeHint .recieving self) id
              (if len < bodySizeHint then 1 else bodySizeHint)

namespace World

/-- `async_compose` calls a fresh operation with no error. -/
def asyncReceive (w : World) (L : Layout) (h : Handler) : World :=
  (Handler.asyncReceiveOp .idle h).invoke L .success 0 w

def asyncReceiveBody (w : World) (L : Layout) (id : RequestId) (bodySizeHint : Nat)
    (h : Handler) : World :=
  (Handler.asyncReceiveBodyOp id bodySizeHint .idle h).invoke L .success 0 w

def store (w : World) (c : Call) (r : Report) : World :=
  { w with buffer := w.buffer.write r.written, answered := w.answered ++ [(c, r)] }

/-- HTTP.sys answers the outstanding call, and every completion of it invokes
the handler. -/
def answer (w : World) (L : Layout) (r : Report) : World :=
  match w.pending with
  | [] => w
  | (c, h) :: rest =>
      ({ w with pending := rest }.store c r).check (c.api.asserts r.result) fun w =>
        (completions c.api r).foldl (fun w (x : ErrorCode × Nat) => h.invoke L x.1 x.2 w) w

theorem check_true (w : World) (next : World → World) : w.check true next = next w := rfl

/-- One overlapped call from its start to its handler, which runs once. -/
theorem answer_pend {w : World} (hw : w.pending = []) (L : Layout) (c : Call) (h : Handler)
    {r : Report} (hr : c.api.asserts r.result = true) :
    (w.pend c h).answer L r = h.invoke L ⟨r.code⟩ r.len (w.store c r) := by
  simp only [answer, pend, hw, List.nil_append, hr, check_true, completions_eq,
    List.foldl_cons, List.foldl_nil]
  rw [show { w with pending := [] } = w by rw [← hw]]

end World

end Winasio.QueueHandle
