import Winasio.Convert
import Winasio.QueueHandle
import Winasio.Transition

/-!
`basic_http_controller`: the event loop that receives requests, dispatches them
to the registered handlers and sends the responses. The composed operations
are steps here; what they deliver is the subject of `ReceiveOutcome` and
`ReceiveBody`.
-/

namespace Winasio.Controller

open Winasio.Transition
open Winasio.QueueHandle (RequestId)
open Winasio.Convert

def httpVerbMaximum : Nat := 20

abbrev HttpVerb : Type := Fin httpVerbMaximum

def httpVerbGet : HttpVerb := ⟨4, by decide⟩

/-- `HTTP_COOKED_URL`: the characters at `pFullUrl`, the length in bytes, and the
query string as a pointer into them. -/
structure CookedUrl where
  pFullUrl : WString
  fullUrlLength : UInt16
  pQueryString : Option Nat
  deriving DecidableEq, Repr

structure HttpRequest where
  requestId : RequestId
  verb : HttpVerb
  cookedUrl : CookedUrl
  deriving DecidableEq, Repr

def HttpRequest.url (r : HttpRequest) : WString :=
  r.cookedUrl.pFullUrl.take
    (match r.cookedUrl.pQueryString with
    | none => r.cookedUrl.fullUrlLength.toNat / 2
    | some offset => offset)

variable {Ω : Type}

/-- `request_handler`: it reads the request and its body, and in `Ω` whatever it
has captured, and changes the response. -/
abbrev RequestHandler (Ω : Type) : Type :=
  Ω → HttpRequest → Bytes → SimpleResponse → SimpleResponse

abbrev Handlers (Ω : Type) : Type := OrderedMap WString (HttpVerb → Option (RequestHandler Ω))

def notFound : Bytes := "Not found".toList.map fun c => .ofNat c.toNat

/-- The first half of `dispatch`: find the handler and let it fill in the
response. -/
def respond (handlers : Handlers Ω) (captured : Ω) (request : HttpRequest) (body : Bytes)
    (response : SimpleResponse) : SimpleResponse :=
  match (handlers.get? request.url).bind fun byVerb => byVerb request.verb with
  | none => (response.setStatusCode 404).setReason notFound
  | some handler => handler captured request body (response.setStatusCode 200)

/-- What is sent for a request: what the handler that is found for it makes of
a new response with the status 200, or 404 if none is found. -/
inductive Responds (handlers : Handlers Ω) (captured : Ω) (request : HttpRequest)
    (body : Bytes) : Contents → Prop
  | handled {byVerb : HttpVerb → Option (RequestHandler Ω)} {handler : RequestHandler Ω} :
      handlers.get? request.url = some byVerb → byVerb request.verb = some handler →
      Responds handlers captured request body
        (handler captured request body { statusCode := some 200 }).getResponse.resp.contents
  | notFound :
      (∀ byVerb, handlers.get? request.url = some byVerb → byVerb request.verb = none) →
      Responds handlers captured request body
        { statusCode := some 404
          reason := notFound
          knownHeaders := List.replicate httpHeaderResponseMaximum none
          inBounds := true
          unknownHeaders := []
          chunks := [] }

theorem responds_respond (handlers : Handlers Ω) (captured : Ω) (request : HttpRequest)
    (body : Bytes) :
    Responds handlers captured request body
      (respond handlers captured request body {}).getResponse.resp.contents := by
  unfold respond
  cases hget : handlers.get? request.url with
  | none => exact .notFound (by simp [hget])
  | some byVerb =>
      cases hverb : byVerb request.verb with
      | none =>
          simp only [Option.bind_some, hverb]
          refine .notFound fun byVerb' hget' => ?_
          cases hget.symm.trans hget'
          exact hverb
      | some handler =>
          simp only [Option.bind_some, hverb]
          exact .handled hget hverb

/-- `basic_http_request_context`; the request buffer is empty before the header
is received. -/
structure RequestContext where
  request : Option HttpRequest := none
  body : Bytes := []
  response : SimpleResponse := {}

/-- The handlers of the controller with their captures: `receive` and
`receiveBody` share the context of their request, `send` has a copy of it. -/
inductive Closure where
  | receive (rq : Nat)
  | receiveBody (rq : Nat)
  | send (rq copy : Nat)
  deriving DecidableEq, Repr

def Closure.request : Closure → Nat
  | .receive rq | .receiveBody rq | .send rq _ => rq

/-- The operations, each with the context into whose storage it was given
pointers. -/
inductive Call where
  | receive (target : Nat)
  | receiveBody (target : Nat) (id : RequestId)
  | send (target : Nat) (id : RequestId) (response : Contents)
  deriving DecidableEq, Repr

def Call.target : Call → Nat
  | .receive target | .receiveBody target _ | .send target _ _ => target

structure Operation where
  closure : Closure
  call : Call
  deriving DecidableEq, Repr

def Operation.target (op : Operation) : Nat := op.call.target

inductive Outcome where
  | receive (result : Except Failure HttpRequest)
  | receiveBody (error : Option Failure) (data : Bytes)
  | send (error : Option Failure)

def Call.admits : Call → Outcome → Bool
  | .receive _, .receive _ => true
  | .receiveBody _ _, .receiveBody _ _ => true
  | .send _ _ _, .send _ => true
  | _, _ => false

/-- What the operation writes into the context it points to. -/
def Outcome.store : Outcome → RequestContext → RequestContext
  | .receive (.ok request), ctx => { ctx with request := some request }
  | .receive (.error _), ctx => ctx
  | .receiveBody _ data, ctx => { ctx with body := data }
  | .send _, ctx => ctx

structure Dispatch (Ω : Type) where
  request : Nat
  verb : HttpVerb
  url : WString
  body : Bytes
  captured : Ω
  deriving DecidableEq, Repr

structure Send where
  request : Nat
  id : RequestId
  response : Contents
  deriving DecidableEq, Repr

/-- The controller between two steps: the contexts by the order in which they
were made, the operations the kernel has, those that are completed and wait
for the executor, and the handler that runs. -/
structure State (Ω : Type) where
  contexts : List RequestContext := []
  inKernel : List Operation := []
  queued : List (Operation × Outcome) := []
  running : Option Closure := none
  handled : List (Closure × Outcome) := []
  dispatched : List (Dispatch Ω) := []
  sends : List Send := []

namespace State

def receiveNextRequest (s : State Ω) : State Ω :=
  let rq := s.contexts.length
  { s with
    contexts := s.contexts ++ [{}]
    inKernel := s.inKernel ++ [⟨.receive rq, .receive rq⟩] }

/-- `get_request` on a context; there is none in an empty buffer. -/
def getRequest (s : State Ω) (rq : Nat) : Option HttpRequest :=
  s.contexts[rq]?.bind RequestContext.request

def receiveBody (s : State Ω) (rq : Nat) : Option (State Ω) :=
  (s.getRequest rq).map fun request =>
    { s with
      inKernel := s.inKernel ++ [⟨.receiveBody rq, .receiveBody rq request.requestId⟩] }

/-- `dispatch` on a context. The response is built in the context itself, the
handler of the send captures a copy. -/
def dispatch (handlers : Handlers Ω) (captured : Ω) (s : State Ω) (rq : Nat) :
    Option (State Ω) :=
  s.contexts[rq]?.bind fun ctx =>
    ctx.request.map fun request =>
      let response := (respond handlers captured request ctx.body ctx.response).getResponse
      let ctx' := { ctx with response }
      { s with
        contexts := s.contexts.set rq ctx' ++ [ctx']
        inKernel := s.inKernel ++
          [⟨.send rq s.contexts.length,
            .send rq request.requestId response.resp.contents⟩]
        dispatched := s.dispatched ++ [⟨rq, request.verb, request.url, ctx.body, captured⟩]
        sends := s.sends ++ [⟨rq, request.requestId, response.resp.contents⟩] }

/-- What a handler does; it gets stuck where the code would read a request that
is not there. -/
def handle (handlers : Handlers Ω) (captured : Ω) (s : State Ω) :
    Closure → Outcome → Option (State Ω)
  | .receive rq, .receive result =>
      let s := s.receiveNextRequest
      match result with
      | .error _ => some s
      | .ok _ => s.receiveBody rq
  | .receiveBody rq, .receiveBody none _ => s.dispatch handlers captured rq
  | _, _ => some s

end State

/-- The kernel completes the operation on a context, the executor runs its
handler, and the handler returns and gives up its captures. A call that
returns an error is completed before its caller goes on. -/
inductive Label (Ω : Type) where
  | complete (target : Nat) (outcome : Outcome)
  | run (target : Nat) (captured : Ω)
  | finish

def step (handlers : Handlers Ω) (s : State Ω) : Label Ω → Option (State Ω)
  | .complete target outcome =>
      match s.inKernel.find? (·.target = target) with
      | some op =>
          if op.call.admits outcome then
            some { s with
              contexts := s.contexts.modify target outcome.store
              inKernel := s.inKernel.eraseP (·.target = target)
              queued := s.queued ++ [(op, outcome)] }
          else none
      | none => none
  | .run target captured =>
      match s.running, s.queued.find? (·.1.target = target) with
      | none, some (op, outcome) =>
          { s with
            queued := s.queued.eraseP (·.1.target = target)
            running := some op.closure
            handled := s.handled ++ [(op.closure, outcome)] }.handle
              handlers captured op.closure outcome
      | _, _ => none
  | .finish =>
      match s.running with
      | some _ => some { s with running := none }
      | none => none

def system (handlers : Handlers Ω) : System (State Ω) (Label Ω) := ⟨step handlers⟩

def start : State Ω := State.receiveNextRequest {}

end Winasio.Controller
