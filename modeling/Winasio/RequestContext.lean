import Winasio.Basic

/-!
`asio_request_context` and the status callback that completes its steps. The
functions that share the context between two threads are given as the list of
their actions on it, in source order, so that two of them can be interleaved.
-/

namespace Winasio.RequestContext

inductive State where
  | idle
  | sendRequest
  | headersAvailable
  | dataAvailable
  | readComplete
  | writeComplete
  | error
  deriving DecidableEq, Repr

/-- The context: the state, the manual-reset event and the one slot for a
result that all steps of a request share. -/
structure AsioRequestContext where
  state : State := .idle
  stepEvent : Bool := false
  stepEc : ErrorCode := .success
  stepLen : Nat := 0
  deriving DecidableEq, Repr

abbrev StepResult : Type := ErrorCode × Nat

inductive Action where
  | setState (s : State)
  | resetEvent
  | clearEc
  | clearLen
  | writeEc (ec : ErrorCode)
  | writeLen (len : Nat)
  | setEvent
  | callApi
  | returnApi (ec : ErrorCode)
  | asyncWait
  deriving DecidableEq, Repr

/-- The effect of an action on the context. Calling WinHTTP, testing its
result and registering the wait leave the context alone. -/
def AsioRequestContext.exec (ctx : AsioRequestContext) : Action → AsioRequestContext
  | .setState s => { ctx with state := s }
  | .resetEvent => { ctx with stepEvent := false }
  | .clearEc => { ctx with stepEc := .success }
  | .clearLen => { ctx with stepLen := 0 }
  | .writeEc ec => { ctx with stepEc := ec }
  | .writeLen len => { ctx with stepLen := len }
  | .setEvent => { ctx with stepEvent := true }
  | .callApi | .returnApi _ | .asyncWait => ctx

def stepReset : List Action := [.resetEvent, .clearEc, .clearLen]

def stepComplete (ec : ErrorCode) (len : Nat) : List Action :=
  [.writeEc ec, .writeLen len, .setEvent]

inductive StepKind where
  | send
  | recieveResponse
  | queryDataAvailable
  | readData
  | writeData
  deriving DecidableEq, Repr

namespace StepKind

def state : StepKind → State
  | .send => .sendRequest
  | .recieveResponse => .headersAvailable
  | .queryDataAvailable => .dataAvailable
  | .readData => .readComplete
  | .writeData => .writeComplete

/-- Whether the operation is an `async_len_op`, whose handler takes a length
too, or an `async_op`. -/
def hasLen : StepKind → Bool
  | .send | .recieveResponse => false
  | .queryDataAvailable | .readData | .writeData => true

end StepKind

/-- What all five functions do: enter the state, reset the step, call WinHTTP
and wait for the event. -/
def asyncStep (s : State) : List Action :=
  .setState s :: stepReset ++ [.callApi, .asyncWait]

def asyncSend : List Action := asyncStep .sendRequest
def asyncRecieveResponse : List Action := asyncStep .headersAvailable
def asyncQueryDataAvailable : List Action := asyncStep .dataAvailable
def asyncReadData : List Action := asyncStep .readComplete
def asyncWriteData : List Action := asyncStep .writeComplete

def StepKind.initiate : StepKind → List Action
  | .send => asyncSend
  | .recieveResponse => asyncRecieveResponse
  | .queryDataAvailable => asyncQueryDataAvailable
  | .readData => asyncReadData
  | .writeData => asyncWriteData

theorem StepKind.initiate_eq (kind : StepKind) : kind.initiate = asyncStep kind.state := by
  cases kind <;> rfl

/-- The branch of the five functions on the error code of the WinHTTP call:
a failing call completes the step at once. -/
def afterApi (ec : ErrorCode) : List Action :=
  if ec.failed then .setState .error :: stepComplete ec 0 else []

inductive ApiId where
  | receiveResponse
  | queryDataAvailable
  | readData
  | writeData
  | sendRequest
  | other (result : UInt32)
  deriving DecidableEq, Repr

/-- `dwInternetStatus` with what the two information arguments carry. -/
inductive Notification where
  | dataAvailable (informationLength : UInt32) (dataLen : UInt32)
  | headersAvailable (informationLength : UInt32)
  | readComplete (informationLength : UInt32)
  | sendRequestComplete (informationLength : UInt32)
  | writeComplete (informationLength : UInt32) (dataLen : UInt32)
  | requestError (error : UInt32) (result : ApiId)
  | other (status : UInt32)
  deriving DecidableEq, Repr

/-- The outcome of one run of the callback: whether every assertion on its
way holds, and the result it passes to `step_complete`, if it gets there. -/
structure CallbackRun where
  assertsHold : Bool
  complete : Option StepResult
  deriving DecidableEq, Repr

def sizeofDword : UInt32 := 4

/-- `BasicAsioAsyncCallback`, on the state it finds in the context. -/
def basicAsioAsyncCallback (state : State) : Notification → CallbackRun
  | .dataAvailable informationLength dataLen =>
      ⟨informationLength == sizeofDword && state == .dataAvailable,
        some (.success, dataLen.toNat)⟩
  | .headersAvailable _ => ⟨state == .headersAvailable, some (.success, 0)⟩
  | .readComplete informationLength =>
      ⟨state == .readComplete, some (.success, informationLength.toNat)⟩
  | .sendRequestComplete _ => ⟨state == .sendRequest, some (.success, 0)⟩
  | .writeComplete informationLength dataLen =>
      ⟨state == .writeComplete && informationLength == sizeofDword,
        some (.success, dataLen.toNat)⟩
  | .requestError error result =>
      let ec : ErrorCode := ⟨error⟩
      match state with
      | .dataAvailable => ⟨ec.failed && result == .queryDataAvailable, some (ec, 0)⟩
      | .headersAvailable => ⟨ec.failed && result == .receiveResponse, some (ec, 0)⟩
      | .readComplete => ⟨ec.failed && result == .readData, some (ec, 0)⟩
      | .sendRequest => ⟨ec.failed && result == .sendRequest, some (ec, 0)⟩
      | .writeComplete => ⟨ec.failed && result == .writeData, some (ec, 0)⟩
      | .idle | .error => ⟨false, none⟩
  | .other _ => ⟨false, none⟩

namespace StepKind

def apiId : StepKind → ApiId
  | .send => .sendRequest
  | .recieveResponse => .receiveResponse
  | .queryDataAvailable => .queryDataAvailable
  | .readData => .readData
  | .writeData => .writeData

/-- The notifications WinHTTP may answer an accepted call with: the matching
completion, or an error that names the call. -/
def Matches : StepKind → Notification → Bool
  | .send, .sendRequestComplete _ => true
  | .recieveResponse, .headersAvailable _ => true
  | .queryDataAvailable, .dataAvailable informationLength _ =>
      informationLength == sizeofDword
  | .readData, .readComplete _ => true
  | .writeData, .writeComplete informationLength _ => informationLength == sizeofDword
  | kind, .requestError error result => error != 0 && result == kind.apiId
  | _, _ => false

/-- What a handler is called with: an `async_op` drops the length. -/
def handlerArgs (kind : StepKind) (r : StepResult) : ErrorCode × Option Nat :=
  (r.1, if kind.hasLen then some r.2 else none)

end StepKind

/-- What a notification says about the step it ends. -/
def Notification.result : Notification → StepResult
  | .dataAvailable _ dataLen | .writeComplete _ dataLen => (.success, dataLen.toNat)
  | .readComplete informationLength => (.success, informationLength.toNat)
  | .headersAvailable _ | .sendRequestComplete _ | .other _ => (.success, 0)
  | .requestError error _ => (⟨error⟩, 0)

/-- A notification that answers the step the context is in violates no
assertion, and its own result is what the step is completed with. -/
theorem basicAsioAsyncCallback_of_matches {kind : StepKind} {n : Notification}
    (h : kind.Matches n = true) :
    basicAsioAsyncCallback kind.state n = ⟨true, some n.result⟩ := by
  cases kind <;> cases n <;>
    simp_all [StepKind.Matches, StepKind.state, StepKind.apiId, basicAsioAsyncCallback,
      Notification.result, ErrorCode.failed]

end Winasio.RequestContext
