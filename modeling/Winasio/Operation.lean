import Winasio.DynamicBuffer
import Winasio.ClientPayload
import Winasio.RequestContext

/-!
The composed operations on a request handle. A composed operation is moved
into the handler of the asynchronous function it calls, so a handler is a
stack of suspended operations over the token of the user. One asynchronous
function is answered at a time; that the context delivers every answer to the
handler of its own step is `StepProtocol.step_protocol`.
-/

namespace Winasio.Operation

open Winasio.ClientPayload
open Winasio.RequestContext

inductive ReadBodyState where
  | idle
  | queryData
  | readData
  | done
  deriving DecidableEq, Repr

inductive ExecState where
  | idle
  | send
  | receiveResponse
  | done
  deriving DecidableEq, Repr

inductive ReadSomeState where
  | idle
  | queryData
  | readData
  | done
  deriving DecidableEq, Repr

structure SendArgs where
  headers : Option WString
  headersLength : UInt32
  optional : Option Bytes
  optionalLength : UInt32
  totalLength : UInt32
  deriving DecidableEq, Repr

/-- A completion handler: the token of the user, or a composed operation that
was moved into the handler, with the handler it completes itself. -/
inductive Handler where
  | token
  | asyncReadBodyOp (state : ReadBodyState) (self : Handler)
  | asyncExecOp (args : SendArgs) (state : ExecState) (self : Handler)
  | asyncReadSomeOp (size : Nat) (state : ReadSomeState) (self : Handler)
  deriving DecidableEq, Repr

/-- Where WinHTTP is told to put the data of a read: the room of the dynamic
buffer, or the raw buffer of the caller. -/
inductive Destination where
  | dynamicBuffer
  | rawBuffer
  deriving DecidableEq, Repr

/-- The asynchronous WinHTTP calls of the composed operations. -/
inductive StepCall where
  | sendRequest (args : SendArgs)
  | receiveResponse
  | queryDataAvailable
  | readData (destination : Destination) (bytesToRead : UInt32)
  deriving DecidableEq, Repr

def StepCall.kind : StepCall → StepKind
  | .sendRequest _ => .send
  | .receiveResponse => .recieveResponse
  | .queryDataAvailable => .queryDataAvailable
  | .readData _ _ => .readData

inductive Call where
  | openRequest (connect : Nat) (verb : WString) (objectName : Option WString)
      (acceptTypes : Option (List (Option StringPtr))) (flags : UInt32)
  | closeHandle (handle : Nat)
  | setStatusCallback
  | setOption (option : UInt32) (value : UInt32)
  | step (call : StepCall)
  deriving DecidableEq, Repr

/-- WinHTTP's answer to an asynchronous call: it fails at once, fails by
callback, or completes. A query takes the length from the answer, a read the
data; it never gets more than it asked for. -/
inductive Outcome where
  | failed (e : Failure)
  | requestError (e : Failure)
  | completed (len : UInt32) (data : Bytes)
  deriving DecidableEq, Repr

def StepCall.delivered (data : Bytes) : StepCall → Bytes
  | .readData _ bytesToRead => data.take bytesToRead.toNat
  | _ => []

def StepCall.completion (len : UInt32) (data : Bytes) : StepCall → Notification
  | .sendRequest _ => .sendRequestComplete 0
  | .receiveResponse => .headersAvailable 0
  | .queryDataAvailable => .dataAvailable sizeofDword len
  | .readData d n => .readComplete (.ofNat (StepCall.delivered data (.readData d n)).length)

/-- The request handle with the buffers of its caller. `calls` are the WinHTTP
calls issued so far, `pending` the asynchronous functions whose handler has
not run, `posted` and `handled` what the handler of the user was posted and
invoked with. -/
structure World where
  handle : Option Nat := none
  ctx : AsioRequestContext := {}
  buffer : DynamicBuffer UInt8 := {}
  raw : Bytes := []
  calls : List Call := []
  pending : List (StepCall × Handler) := []
  posted : List (ErrorCode × Nat) := []
  handled : List (ErrorCode × Nat) := []
  assertsHold : Bool := true
  deriving DecidableEq, Repr

/-- How WinHTTP answers the synchronous calls of a request. -/
structure SyncOutcomes where
  openRequest : Except Failure Nat
  setStatusCallback : Option Failure := none
  setOption : Option Failure := none

structure OpenArgs where
  connect : Nat
  verb : WString
  objectName : Option WString
  acceptTypes : Option (List (Option StringPtr))
  flags : UInt32

def OpenArgs.call (a : OpenArgs) : Call :=
  .openRequest a.connect a.verb a.objectName a.acceptTypes a.flags

/-- What `assign` closes before it takes over a new handle. -/
def closeCalls (handle : Option Nat) : List Call := (handle.map Call.closeHandle).toList

namespace World

def issue (w : World) (c : Call) : World := { w with calls := w.calls ++ [c] }

def assign (w : World) (handle : Nat) : World :=
  { w with calls := w.calls ++ closeCalls w.handle, handle := some handle }

/-- `basic_winhttp_request_handle::open`; the error code is only written when
the call fails. -/
def openRequest (w : World) (a : OpenArgs) (answer : Except Failure Nat) (ec : ErrorCode) :
    World × ErrorCode :=
  match answer with
  | .error e => (w.issue a.call, e.val)
  | .ok handle => ((w.issue a.call).assign handle, ec)

def setStatusCallback (w : World) (answer : Option Failure) (ec : ErrorCode) :
    World × ErrorCode :=
  (w.issue .setStatusCallback, answer.elim ec Subtype.val)

def setOption (w : World) (option value : UInt32) (answer : Option Failure) (ec : ErrorCode) :
    World × ErrorCode :=
  (w.issue (.setOption option value), answer.elim ec Subtype.val)

def managedOpen (w : World) (a : OpenArgs) (sync : SyncOutcomes) (ec : ErrorCode) :
    World × ErrorCode :=
  let (w, ec) := w.openRequest a sync.openRequest ec
  if ec.failed then (w, ec) else w.setStatusCallback sync.setStatusCallback ec

def post (w : World) (ec : ErrorCode) : World := { w with posted := w.posted ++ [(ec, 0)] }

def runPosted (w : World) : World := { w with handled := w.handled ++ w.posted, posted := [] }

end World

namespace World

/-- Call an asynchronous function of the handle: enter the state, reset the
step, call WinHTTP and leave the handler to the wait. -/
def start (w : World) (c : StepCall) (h : Handler) : World :=
  { w with
    ctx := (.setState c.kind.state :: stepReset).foldl AsioRequestContext.exec w.ctx
    calls := w.calls ++ [.step c]
    pending := w.pending ++ [(c, h)] }

def asyncSend (w : World) (args : SendArgs) (h : Handler) : World :=
  w.start (.sendRequest args) h

def asyncRecieveResponse (w : World) (h : Handler) : World := w.start .receiveResponse h

def asyncQueryDataAvailable (w : World) (h : Handler) : World :=
  w.start .queryDataAvailable h

def asyncReadData (w : World) (d : Destination) (n : UInt32) (h : Handler) : World :=
  w.start (.readData d n) h

/-- Start `async_read_body`: the operation is called with its default
arguments and queries first. -/
def asyncReadBody (w : World) (h : Handler) : World :=
  w.asyncQueryDataAvailable (.asyncReadBodyOp .queryData h)

def asyncReadSome (w : World) (size : Nat) (h : Handler) : World :=
  w.asyncQueryDataAvailable (.asyncReadSomeOp size .queryData h)

end World

/-- Invoke a handler. A suspended operation runs its `operator()`, in which
`self.complete` invokes the handler it holds. -/
def Handler.invoke : Handler → ErrorCode → Nat → World → World
  | .token, ec, len, w => { w with handled := w.handled ++ [(ec, len)] }
  | .asyncReadBodyOp state self, ec, len, w =>
      if ec.failed then self.invoke ec len w
      else
        match state with
        | .idle => w.asyncQueryDataAvailable (.asyncReadBodyOp .queryData self)
        | .queryData =>
            -- always prepare one more byte
            { w with buffer := w.buffer.prepare (len + 1) }.asyncReadData
              .dynamicBuffer (.ofNat len) (.asyncReadBodyOp .readData self)
        | .readData =>
            if len ≠ 0 then
              { w with buffer := w.buffer.commit len }.asyncQueryDataAvailable
                (.asyncReadBodyOp .queryData self)
            else self.invoke ec 0 w
        | .done => { w with assertsHold := false }
  | .asyncExecOp args state self, ec, len, w =>
      if ec.failed then self.invoke ec len w
      else
        match state with
        | .idle => w.asyncSend args (.asyncExecOp args .send self)
        | .send => w.asyncRecieveResponse (.asyncExecOp args .receiveResponse self)
        | .receiveResponse => w.asyncReadBody (.asyncExecOp args .done self)
        | .done => self.invoke ec 0 w
  | .asyncReadSomeOp size state self, ec, len, w =>
      if ec.failed then self.invoke ec len w
      else
        match state with
        | .idle => w.asyncQueryDataAvailable (.asyncReadSomeOp size .queryData self)
        | .queryData =>
            w.asyncReadData .rawBuffer (.ofNat (min len size))
              (.asyncReadSomeOp size .readData self)
        | .readData => self.invoke ec len w
        | .done => { w with assertsHold := false }

/-- `async_compose` calls a fresh operation with no error. -/
theorem World.asyncReadBody_eq (w : World) (h : Handler) :
    w.asyncReadBody h = (Handler.asyncReadBodyOp .idle h).invoke .success 0 w := rfl

theorem World.asyncReadSome_eq (w : World) (size : Nat) (h : Handler) :
    w.asyncReadSome size h = (Handler.asyncReadSomeOp size .idle h).invoke .success 0 w := rfl

namespace World

def store (w : World) (c : StepCall) (data : Bytes) : World :=
  match c with
  | .readData .dynamicBuffer _ => { w with buffer := w.buffer.write (c.delivered data) }
  | .readData .rawBuffer _ => { w with raw := c.delivered data }
  | _ => w

def notify (w : World) (n : Notification) : World :=
  let run := basicAsioAsyncCallback w.ctx.state n
  { w with
    ctx := match run.complete with
      | some r => (stepComplete r.1 r.2).foldl AsioRequestContext.exec w.ctx
      | none => w.ctx
    assertsHold := w.assertsHold && run.assertsHold }

/-- The answer of WinHTTP to a call, up to the event. -/
def settle (w : World) (c : StepCall) : Outcome → World
  | .failed e => { w with ctx := (afterApi e.val).foldl AsioRequestContext.exec w.ctx }
  | .requestError e => w.notify (.requestError e.val.value c.kind.apiId)
  | .completed len data => (w.store c data).notify (c.completion len data)

/-- The oldest pending call is answered; once the event is set its handler
runs with what it finds in the context. -/
def answer (w : World) (o : Outcome) : World :=
  match w.pending with
  | [] => w
  | (c, h) :: rest =>
      let w' := { w with pending := rest }.settle c o
      if w'.ctx.stepEvent then
        let args := c.kind.handlerArgs (w'.ctx.stepEc, w'.ctx.stepLen)
        h.invoke args.1 (args.2.getD 0) w'
      else { w' with pending := (c, h) :: rest }

def run (w : World) (script : List Outcome) : World := script.foldl answer w

@[simp] theorem run_nil (w : World) : w.run [] = w := rfl

@[simp] theorem run_cons (w : World) (o : Outcome) (script : List Outcome) :
    w.run (o :: script) = (w.answer o).run script := rfl

end World

def Outcome.result (c : StepCall) : Outcome → StepResult
  | .failed e | .requestError e => (e.val, 0)
  | .completed len data => (c.completion len data).result

def Outcome.stateAfter (c : StepCall) : Outcome → State
  | .failed _ => .error
  | .requestError _ | .completed _ _ => c.kind.state

namespace World

/-- The world in which the handler of a call runs: the call was issued, its
data stored and its result recorded. -/
def answered (w : World) (c : StepCall) (o : Outcome) : World :=
  let w' := match o with
    | .completed _ data => w.store c data
    | .failed _ | .requestError _ => w
  { w' with
    ctx := ⟨o.stateAfter c, true, (o.result c).1, (o.result c).2⟩
    calls := w'.calls ++ [.step c] }

theorem store_eq (w : World) (c : StepCall) (data : Bytes) :
    w.store c data = { w with buffer := (w.store c data).buffer, raw := (w.store c data).raw } := by
  rcases c with _ | _ | _ | ⟨_ | _, n⟩ <;> rfl

@[simp] theorem run_of_pending_nil {w : World} (h : w.pending = []) (script : List Outcome) :
    w.run script = w := by
  induction script with
  | nil => rfl
  | cons o script ih =>
      have : w.answer o = w := by simp [answer, h]
      rw [run_cons, this, ih]

end World

theorem matches_completion (c : StepCall) (len : UInt32) (data : Bytes) :
    c.kind.Matches (c.completion len data) = true := by
  cases c <;> simp [StepCall.kind, StepCall.completion, StepKind.Matches]

theorem matches_requestError (c : StepCall) (e : Failure) :
    c.kind.Matches (.requestError e.val.value c.kind.apiId) = true := by
  have := ErrorCode.failed_iff.mp e.failed
  cases c <;> simpa [StepCall.kind, StepKind.Matches, StepKind.apiId]

def Outcome.Fails (o : Outcome) (e : Failure) : Prop := o = .failed e ∨ o = .requestError e

theorem Outcome.Fails.result {o : Outcome} {e : Failure} (h : o.Fails e) (c : StepCall) :
    o.result c = (e.val, 0) := by
  rcases h with rfl | rfl <;> rfl

theorem handlerArgs_getD (c : StepCall) (o : Outcome) :
    (c.kind.handlerArgs (o.result c)).2.getD 0 = (o.result c).2 := by
  rcases o with e | e | ⟨len, data⟩
  · cases c <;> rfl
  · cases c <;> rfl
  · cases c <;> rfl

/-- One asynchronous function from its call to its handler: the handler runs
once, after the call, with the result of the answer. -/
theorem World.answer_start {w : World} (hw : w.pending = []) (c : StepCall) (h : Handler)
    (o : Outcome) :
    (w.start c h).answer o = h.invoke (o.result c).1 (o.result c).2 (w.answered c o) := by
  have hstart : (.setState c.kind.state :: stepReset).foldl AsioRequestContext.exec w.ctx =
      ⟨c.kind.state, false, .success, 0⟩ := rfl
  rw [← handlerArgs_getD c o]
  cases o with
  | failed e =>
      simp [answer, start, hw, hstart, settle, afterApi, answered, stepComplete,
        AsioRequestContext.exec, Outcome.result, Outcome.stateAfter, StepKind.handlerArgs]
  | requestError e =>
      have hrun := basicAsioAsyncCallback_of_matches (matches_requestError c e)
      simp [answer, start, hw, hstart, settle, notify, hrun, answered, stepComplete,
        AsioRequestContext.exec, Outcome.result, Outcome.stateAfter, StepKind.handlerArgs,
        Notification.result]
  | completed len data =>
      have hrun := basicAsioAsyncCallback_of_matches (matches_completion c len data)
      have hstore : ∀ ctx calls, ({ w with ctx, calls, pending := [] } : World).store c data =
          { w.store c data with ctx, calls, pending := [] } := by
        intro ctx calls
        rcases c with _ | _ | _ | ⟨_ | _, n⟩ <;> rfl
      have hpending : (w.store c data).pending = [] := by rw [store_eq]; exact hw
      have hcalls : (w.store c data).calls = w.calls := by rw [store_eq]
      simp [answer, start, hw, hstart, settle, notify, hstore, hrun, answered, stepComplete,
        AsioRequestContext.exec, Outcome.result, Outcome.stateAfter, StepKind.handlerArgs,
        hpending, hcalls]

end Winasio.Operation
