import Winasio.ControllerView

/-!
Requests in progress at the same time: what the controller does for one of them
is a matter of that request alone.
-/

namespace Winasio.ControllerIsolation

open Winasio.Transition
open Winasio.EraseFirst
open Winasio.Convert
open Winasio.Controller
open Winasio.ControllerView

variable {Ω : Type}

inductive Stage (Ω : Type) where
  | unused (context : Option RequestContext)
  | receiving
  | received (result : Except Failure HttpRequest)
  | refused (failure : Failure)
  | readingBody (request : HttpRequest)
  | bodyRead (request : HttpRequest) (error : Option Failure) (data : Bytes)
  | dropped (request : HttpRequest) (failure : Failure) (data : Bytes)
  | sending (request : HttpRequest) (data : Bytes) (captured : Ω) (copy : Nat)
  | sent (request : HttpRequest) (data : Bytes) (captured : Ω) (copy : Nat)
      (error : Option Failure)
  | finished (request : HttpRequest) (data : Bytes) (captured : Ω) (copy : Nat)
      (error : Option Failure)

def ownResponse (handlers : Handlers Ω) (captured : Ω) (request : HttpRequest)
    (data : Bytes) : SimpleResponse :=
  (respond handlers captured request data {}).getResponse

def View.withHeader (rq : Nat) (request : HttpRequest) (data : Bytes) : View Ω where
  context := some { request, body := data }
  inKernel := []
  queued := []
  handled := [(.receive rq, .receive (.ok request))]
  dispatched := []
  sends := []

def View.withResponse (handlers : Handlers Ω) (rq : Nat) (request : HttpRequest)
    (data : Bytes) (captured : Ω) : View Ω where
  context := some
    { request, body := data, response := ownResponse handlers captured request data }
  inKernel := []
  queued := []
  handled := [(.receive rq, .receive (.ok request)), (.receiveBody rq, .receiveBody none data)]
  dispatched := [⟨rq, request.verb, request.url, data, captured⟩]
  sends :=
    [⟨rq, request.requestId, (ownResponse handlers captured request data).resp.contents⟩]

/-- The send of the response of `rq`; its handler owns the copy. -/
def sendOperation (handlers : Handlers Ω) (rq : Nat) (request : HttpRequest) (data : Bytes)
    (captured : Ω) (copy : Nat) : Operation where
  closure := .send rq copy
  call := .send rq request.requestId (ownResponse handlers captured request data).resp.contents

def Stage.view (handlers : Handlers Ω) (rq : Nat) : Stage Ω → View Ω
  | .unused context => ⟨context, [], [], [], [], []⟩
  | .receiving => ⟨some {}, [⟨.receive rq, .receive rq⟩], [], [], [], []⟩
  | .received result =>
      ⟨some ((Outcome.receive result).store {}), [],
        [(⟨.receive rq, .receive rq⟩, .receive result)], [], [], []⟩
  | .refused failure =>
      ⟨some {}, [], [], [(.receive rq, .receive (.error failure))], [], []⟩
  | .readingBody request =>
      { View.withHeader rq request [] with
        inKernel := [⟨.receiveBody rq, .receiveBody rq request.requestId⟩] }
  | .bodyRead request error data =>
      { View.withHeader rq request data with
        queued := [(⟨.receiveBody rq, .receiveBody rq request.requestId⟩,
          .receiveBody error data)] }
  | .dropped request failure data =>
      { View.withHeader rq request data with
        handled := [(.receive rq, .receive (.ok request)),
          (.receiveBody rq, .receiveBody (some failure) data)] }
  | .sending request data captured copy =>
      { View.withResponse handlers rq request data captured with
        inKernel := [sendOperation handlers rq request data captured copy] }
  | .sent request data captured copy error =>
      { View.withResponse handlers rq request data captured with
        queued := [(sendOperation handlers rq request data captured copy, .send error)] }
  | .finished request data captured copy error =>
      let v := View.withResponse handlers rq request data captured
      { v with handled := v.handled ++ [(.send rq copy, .send error)] }

def Stage.completed : Stage Ω → Outcome → Stage Ω
  | .receiving, .receive result => .received result
  | .readingBody request, .receiveBody error data => .bodyRead request error data
  | .sending request data captured copy, .send error =>
      .sent request data captured copy error
  | stage, _ => stage

def Stage.ran (captured : Ω) (copy : Nat) : Stage Ω → Stage Ω
  | .received (.error failure) => .refused failure
  | .received (.ok request) => .readingBody request
  | .bodyRead request (some failure) data => .dropped request failure data
  | .bodyRead request none data => .sending request data captured copy
  | .sent request data captured copy error => .finished request data captured copy error
  | stage => stage

def Stage.opens (handlers : Handlers Ω) (captured : Ω) : Stage Ω → Stage Ω
  | .received _ => .receiving
  | .bodyRead request none data =>
      .unused (some
        { request, body := data, response := ownResponse handlers captured request data })
  | _ => .unused none

theorem view_complete {handlers : Handlers Ω} {s s' : State Ω} {target : Nat}
    {outcome : Outcome} {stage : Stage Ω} (hstage : view s target = stage.view handlers target)
    (h : step handlers s (.complete target outcome) = some s') :
    view s' target = (stage.completed outcome).view handlers target ∧
      ∀ rq, rq ≠ target → view s' rq = view s rq := by
  obtain ⟨op, hop, hadmits, rfl⟩ := step_complete h
  have htarget : op.target = target := by simpa using List.find?_some hop
  refine ⟨?_, fun rq hne => view_completed_other s hne op htarget outcome⟩
  rw [view_completed_self s op htarget outcome, hstage]
  rw [head?_inKernel, hstage] at hop
  cases stage with
  | receiving =>
      cases hop
      cases outcome with
      | receive result => rfl
      | receiveBody error data => cases hadmits
      | send error => cases hadmits
  | readingBody request =>
      cases hop
      cases outcome with
      | receive result => cases hadmits
      | receiveBody error data => rfl
      | send error => cases hadmits
  | sending request data captured copy =>
      cases hop
      cases outcome with
      | receive result => cases hadmits
      | receiveBody error data => cases hadmits
      | send error => rfl
  | unused | received | refused | bodyRead | dropped | sent | finished => cases hop

/-- What the handler of `target` does once it is started, by the stage of the
request. -/
inductive Ran (handlers : Handlers Ω) (captured : Ω) (target : Nat) (s : State Ω) :
    Stage Ω → State Ω → Prop
  | refused (failure : Failure) :
      Ran handlers captured target s (.received (.error failure)) s.receiveNextRequest
  | header (request : HttpRequest) {s' : State Ω} :
      s.receiveNextRequest.receiveBody target = some s' →
      Ran handlers captured target s (.received (.ok request)) s'
  | dropped (request : HttpRequest) (failure : Failure) (data : Bytes) :
      Ran handlers captured target s (.bodyRead request (some failure) data) s
  | dispatch (request : HttpRequest) (data : Bytes) :
      Ran handlers captured target s (.bodyRead request none data)
        (answered s target request
          { request, body := data, response := ownResponse handlers captured request data }
          captured)
  | finished (request : HttpRequest) (data : Bytes) (captured' : Ω) (copy : Nat)
      (error : Option Failure) :
      Ran handlers captured target s (.sent request data captured' copy error) s

theorem ran_of_step {handlers : Handlers Ω} {captured : Ω} {s s' : State Ω} {target : Nat}
    {stage : Stage Ω} (hstage : view s target = stage.view handlers target)
    (h : step handlers s (.run target captured) = some s') :
    ∃ op outcome, s.running = none ∧
      s.queued.find? (·.1.target = target) = some (op, outcome) ∧
      (stage.view handlers target).queued = [(op, outcome)] ∧
      op.closure.request = target ∧
      Ran handlers captured target (pop s target op outcome) stage s' := by
  obtain ⟨op, outcome, hrunning, hop, hhandle⟩ := step_run h
  refine ⟨op, outcome, hrunning, hop, ?_⟩
  rw [head?_queued, hstage] at hop
  have hcontext : s.contexts[target]? = (stage.view handlers target).context :=
    congrArg View.context hstage
  cases stage with
  | received result =>
      cases hop
      refine ⟨rfl, rfl, ?_⟩
      cases result with
      | error failure =>
          cases hhandle
          exact .refused failure
      | ok request => exact .header request hhandle
  | bodyRead request error data =>
      cases hop
      refine ⟨rfl, rfl, ?_⟩
      cases error with
      | some failure =>
          cases hhandle
          exact .dropped request failure data
      | none =>
          cases hhandle.symm.trans (dispatch_eq handlers captured hcontext rfl)
          exact .dispatch request data
  | sent request data captured' copy error =>
      cases hop
      refine ⟨rfl, rfl, ?_⟩
      cases hhandle
      exact .finished request data captured' copy error
  | unused | receiving | refused | readingBody | dropped | sending | finished => cases hop

/-- The handler of a request moves that request on and uses the next context;
all others stay as they are. -/
theorem view_of_ran {handlers : Handlers Ω} {captured : Ω} {s s' : State Ω} {target : Nat}
    {stage : Stage Ω} (hstage : view s target = (stage.view handlers target).popped)
    (hfresh : view s s.contexts.length = (Stage.unused none).view handlers s.contexts.length)
    (h : Ran handlers captured target s stage s') :
    view s' target = (stage.ran captured s.contexts.length).view handlers target ∧
      view s' s.contexts.length =
        (stage.opens handlers captured).view handlers s.contexts.length ∧
      ∀ rq, rq ≠ target → rq ≠ s.contexts.length → view s' rq = view s rq := by
  have hlt : target < s.contexts.length := by
    have hcontext := congrArg View.context hstage
    cases h <;> exact lt_length_of_context hcontext
  have hne : target ≠ s.contexts.length := Nat.ne_of_lt hlt
  cases h with
  | refused failure =>
      refine ⟨?_, ?_, fun rq _ hrq => view_receiveNextRequest_other rfl hrq⟩
      · rw [view_receiveNextRequest_other rfl hne, hstage]
        rfl
      · rw [view_receiveNextRequest_self rfl, hfresh]
        rfl
  | header request hbody =>
      obtain ⟨hother, request', hrequest, hself⟩ := view_receiveBody hbody
      rw [view_receiveNextRequest_other rfl hne, hstage] at hself
      have hcontext := congrArg View.context
        ((view_receiveNextRequest_other rfl hne).trans hstage)
      simp only [State.getRequest] at hrequest
      rw [show s.receiveNextRequest.contexts[target]? = _ from hcontext] at hrequest
      cases hrequest
      refine ⟨hself, ?_, ?_⟩
      · rw [hother _ hne.symm, view_receiveNextRequest_self rfl, hfresh]
        rfl
      · intro rq hrq hlen
        rw [hother rq hrq, view_receiveNextRequest_other rfl hlen]
  | dropped request failure data => exact ⟨hstage, hfresh, fun rq _ _ => rfl⟩
  | dispatch request data =>
      refine ⟨?_, ?_, fun rq hrq hlen => view_answered_other rfl hrq hlen _ _ _⟩
      · rw [view_answered_self rfl hlt, hstage]
        rfl
      · rw [view_answered_copy rfl hlt, hfresh]
        rfl
  | finished request data captured' copy error => exact ⟨hstage, hfresh, fun rq _ _ => rfl⟩

def isReceive : Call → Bool
  | .receive _ => true
  | _ => false

/-- The operations that were started and whose handler has not run. -/
def outstanding (s : State Ω) : List Operation :=
  s.inKernel ++ s.queued.map Prod.fst

def receives (s : State Ω) : Nat :=
  (outstanding s).countP fun op => isReceive op.call

theorem receives_completed {s : State Ω} {target : Nat} {op : Operation}
    (hop : s.inKernel.find? (·.target = target) = some op) (outcome : Outcome) :
    receives (completed s target op outcome) = receives s := by
  have hcount := countP_eraseP (fun op : Operation => isReceive op.call) hop
  simp only [receives, outstanding, completed, List.map_append, List.countP_append,
    List.map_cons, List.map_nil, List.countP_singleton]
  omega

theorem receives_pop {s : State Ω} {target : Nat} {op : Operation} {outcome : Outcome}
    (hop : s.queued.find? (·.1.target = target) = some (op, outcome)) :
    receives (pop s target op outcome) + (if isReceive op.call then 1 else 0) =
      receives s := by
  have hcount := countP_eraseP (fun q : Operation × Outcome => isReceive q.1.call) hop
  simp only [receives, outstanding, pop, List.countP_append, List.countP_map] at hcount ⊢
  exact (Nat.add_assoc _ _ _).trans (congrArg _ hcount)

theorem receives_of_ran {handlers : Handlers Ω} {captured : Ω} {s s' : State Ω}
    {target : Nat} {stage : Stage Ω} (h : Ran handlers captured target s stage s') :
    receives s' = receives s +
      ((stage.view handlers target).queued.countP fun q => isReceive q.1.call) := by
  cases h with
  | refused failure =>
      simp [receives, outstanding, State.receiveNextRequest, Stage.view, isReceive]
      omega
  | header request hbody =>
      obtain ⟨request', -, rfl⟩ := Option.map_eq_some_iff.mp hbody
      simp [receives, outstanding, State.receiveNextRequest, Stage.view, isReceive]
      omega
  | dropped request failure data => simp [Stage.view, isReceive]
  | dispatch request data =>
      simp [receives, outstanding, answered, Stage.view, isReceive]
  | finished request data captured' copy error =>
      simp [Stage.view, isReceive, sendOperation]

structure Invariant (handlers : Handlers Ω) (s : State Ω) : Prop where
  stage : ∀ rq, ∃ stage : Stage Ω, view s rq = stage.view handlers rq
  receives : receives s = 1

theorem Invariant.fresh {handlers : Handlers Ω} {s : State Ω} (hs : Invariant handlers s) :
    view s s.contexts.length = (Stage.unused none).view handlers s.contexts.length := by
  obtain ⟨stage, hstage⟩ := hs.stage s.contexts.length
  have hcontext : s.contexts[s.contexts.length]? = (stage.view handlers _).context :=
    congrArg View.context hstage
  rw [List.getElem?_eq_none (Nat.le_refl _)] at hcontext
  cases stage with
  | unused context =>
      cases hcontext
      exact hstage
  | receiving | received | refused | readingBody | bodyRead | dropped | sending | sent
  | finished => cases hcontext

theorem view_run {handlers : Handlers Ω} {captured : Ω} {s s' : State Ω} {target : Nat}
    {stage : Stage Ω} (hs : Invariant handlers s)
    (hstage : view s target = stage.view handlers target)
    (h : step handlers s (.run target captured) = some s') :
    view s' target = (stage.ran captured s.contexts.length).view handlers target ∧
      view s' s.contexts.length =
        (stage.opens handlers captured).view handlers s.contexts.length ∧
      (∀ rq, rq ≠ target → rq ≠ s.contexts.length → view s' rq = view s rq) ∧
      receives s' = receives s := by
  obtain ⟨op, outcome, -, hop, hqueued, hrequest, hran⟩ := ran_of_step hstage h
  have hne : s.contexts.length ≠ target := by
    rintro rfl
    rw [← hstage, hs.fresh] at hqueued
    cases hqueued
  have hpopped := (view_pop_self hop hrequest).trans (congrArg View.popped hstage)
  have hfresh := (view_pop_other s hne op hrequest outcome).trans hs.fresh
  obtain ⟨hself, hopens, hother⟩ := view_of_ran hpopped hfresh hran
  refine ⟨hself, hopens, ?_, ?_⟩
  · intro rq hrq hlen
    exact (hother rq hrq hlen).trans (view_pop_other s hrq op hrequest outcome)
  · rw [receives_of_ran hran, hqueued, List.countP_singleton]
    exact receives_pop hop

theorem invariant_start (handlers : Handlers Ω) : Invariant handlers start := by
  have hempty : ∀ rq, view ({} : State Ω) rq = (Stage.unused none).view handlers rq :=
    fun _ => rfl
  refine ⟨?_, rfl⟩
  intro rq
  by_cases hrq : rq = 0
  · subst hrq
    refine ⟨.receiving, (view_receiveNextRequest_self rfl).trans ?_⟩
    rw [hempty]
    rfl
  · exact ⟨.unused none, (view_receiveNextRequest_other rfl hrq).trans (hempty rq)⟩

theorem Invariant.step {handlers : Handlers Ω} {s s' : State Ω} {label : Label Ω}
    (hs : Invariant handlers s) (h : step handlers s label = some s') :
    Invariant handlers s' := by
  cases label with
  | complete target outcome =>
      obtain ⟨stage, hstage⟩ := hs.stage target
      obtain ⟨hself, hother⟩ := view_complete hstage h
      obtain ⟨op, hop, -, rfl⟩ := step_complete h
      refine ⟨?_, (receives_completed hop outcome).trans hs.receives⟩
      intro rq
      by_cases hrq : rq = target
      · subst hrq
        exact ⟨_, hself⟩
      · rw [hother rq hrq]
        exact hs.stage rq
  | run target captured =>
      obtain ⟨stage, hstage⟩ := hs.stage target
      obtain ⟨hself, hopens, hother, hreceives⟩ := view_run hs hstage h
      refine ⟨?_, hreceives.trans hs.receives⟩
      intro rq
      by_cases hrq : rq = target
      · subst hrq
        exact ⟨_, hself⟩
      · by_cases hlen : rq = s.contexts.length
        · subst hlen
          exact ⟨_, hopens⟩
        · rw [hother rq hrq hlen]
          exact hs.stage rq
  | finish =>
      obtain ⟨-, rfl⟩ := step_finish h
      exact ⟨hs.stage, hs.receives⟩

theorem Invariant.of_run {handlers : Handlers Ω} {s : State Ω} {labels : List (Label Ω)}
    (hrun : (system handlers).run start labels = some s) : Invariant handlers s :=
  System.run_preserves (fun _ _ _ hs h => hs.step h) (invariant_start handlers) hrun

section Own

/-- The header receive of `rq` delivered `request` to its handler. -/
def HeaderReceived (rq : Nat) (v : View Ω) (request : HttpRequest) : Prop :=
  (Closure.receive rq, Outcome.receive (.ok request)) ∈ v.handled

/-- The body receive of `rq` delivered the whole body to its handler. -/
def BodyReceived (rq : Nat) (v : View Ω) (data : Bytes) : Prop :=
  (Closure.receiveBody rq, Outcome.receiveBody none data) ∈ v.handled

structure Own (handlers : Handlers Ω) (rq : Nat) (v : View Ω) : Prop where
  alone : v.inKernel.length + v.queued.length ≤ 1
  operation : ∀ op ∈ v.inKernel ++ v.queued.map Prod.fst, op.closure.request = rq
  header : v.handled.countP (·.1 = .receive rq) ≤ 1
  context : ∀ request, HeaderReceived rq v request →
    ∃ ctx, v.context = some ctx ∧ ctx.request = some request
  bodyId : ∀ op ∈ v.inKernel ++ v.queued.map Prod.fst, ∀ target id,
    op.call = .receiveBody target id →
      ∃ request, HeaderReceived rq v request ∧ id = request.requestId
  reads : ∀ request, HeaderReceived rq v request → v.inKernel = [] → v.queued = [] →
    ∃ error data, (Closure.receiveBody rq, Outcome.receiveBody error data) ∈ v.handled
  once : v.dispatched.length ≤ 1
  dispatched : v.dispatched.length = 1 ↔
    (∃ request, HeaderReceived rq v request) ∧ ∃ data, BodyReceived rq v data
  sees : ∀ d ∈ v.dispatched, BodyReceived rq v d.body ∧
    ∃ request, HeaderReceived rq v request ∧ d.verb = request.verb ∧ d.url = request.url
  sends : v.sends.length = v.dispatched.length
  carries : ∀ send ∈ v.sends, ∃ d ∈ v.dispatched, ∃ request, HeaderReceived rq v request ∧
    send.id = request.requestId ∧ Responds handlers d.captured request d.body send.response

theorem own_view (handlers : Handlers Ω) (rq : Nat) (stage : Stage Ω) :
    Own handlers rq (stage.view handlers rq) := by
  cases stage <;> constructor <;>
    simp [Stage.view, HeaderReceived, BodyReceived, View.withHeader,
      View.withResponse, Closure.request, sendOperation, ownResponse, responds_respond]

end Own

def isFailure : Outcome → Bool
  | .receiveBody (some _) _ => true
  | .send (some _) => true
  | _ => false

/-- The step is the failure of the body receive or the send of `target`, or the
handler that is told of it. -/
def Fails (s : State Ω) (target : Nat) : Label Ω → Prop
  | .complete target' outcome => target' = target ∧ isFailure outcome = true
  | .run target' _ => target' = target ∧ ∃ op outcome,
      s.queued.find? (·.1.target = target') = some (op, outcome) ∧ isFailure outcome = true
  | .finish => False

theorem view_run_failed {handlers : Handlers Ω} {captured : Ω} {s s' : State Ω}
    {target : Nat} {op : Operation} {outcome : Outcome} (hs : Invariant handlers s)
    (hop : s.queued.find? (·.1.target = target) = some (op, outcome))
    (hfailure : isFailure outcome = true)
    (h : step handlers s (.run target captured) = some s') :
    ∀ rq, rq ≠ target → view s' rq = view s rq := by
  intro rq hrq
  obtain ⟨stage, hstage⟩ := hs.stage target
  obtain ⟨-, hopens, hother, -⟩ := view_run hs hstage h
  by_cases hlen : rq = s.contexts.length
  · subst hlen
    rw [head?_queued, hstage] at hop
    rw [hopens, hs.fresh]
    cases stage with
    | received result => cases hop; cases hfailure
    | bodyRead request error data =>
        cases hop
        cases error with
        | none => cases hfailure
        | some failure => rfl
    | sent request data captured' copy error => rfl
    | unused | receiving | refused | readingBody | dropped | sending | finished => cases hop
  · exact hother rq hrq hlen

theorem handle_enabled {handlers : Handlers Ω} (captured : Ω) {s : State Ω} {target : Nat}
    {stage : Stage Ω} (hstage : view s target = stage.view handlers target) {op : Operation}
    {outcome : Outcome} (hop : (stage.view handlers target).queued.head? = some (op, outcome)) :
    ∃ s', (pop s target op outcome).handle handlers captured op.closure outcome = some s' := by
  have hcontext := congrArg View.context hstage
  cases stage with
  | received result =>
      cases hop
      cases result with
      | error failure => exact ⟨_, rfl⟩
      | ok request => exact exists_receiveBody hcontext rfl
  | bodyRead request error data =>
      cases hop
      cases error with
      | some failure => exact ⟨_, rfl⟩
      | none => exact ⟨_, dispatch_eq handlers captured hcontext rfl⟩
  | sent request data captured' copy error =>
      cases hop
      exact ⟨_, rfl⟩
  | unused | receiving | refused | readingBody | dropped | sending | finished => cases hop

theorem run_enabled {handlers : Handlers Ω} {s : State Ω} (hs : Invariant handlers s)
    (hrunning : s.running = none) {op : Operation} {outcome : Outcome}
    (hop : (op, outcome) ∈ s.queued) (captured : Ω) :
    ∃ s', step handlers s (.run op.target captured) = some s' := by
  obtain ⟨stage, hstage⟩ := hs.stage op.target
  obtain ⟨⟨op', outcome'⟩, hfirst⟩ : ∃ q, s.queued.find? (·.1.target = op.target) = some q :=
    Option.isSome_iff_exists.mp (List.find?_isSome.mpr ⟨_, hop, by simp⟩)
  have hhead := hfirst
  rw [head?_queued, hstage] at hhead
  obtain ⟨s', hs'⟩ := handle_enabled captured hstage hhead
  refine ⟨s', ?_⟩
  simp only [step, hrunning, hfirst]
  exact hs'

/-- Requests in progress do not get into each other's way. -/
structure Isolated (handlers : Handlers Ω) (s : State Ω) : Prop where
  receives : receives s = 1
  own : ∀ rq, Own handlers rq (view s rq)
  failure : ∀ label s', step handlers s label = some s' → ∀ target, Fails s target label →
    ∀ rq, rq ≠ target → view s' rq = view s rq
  progress : s.running = none → ∀ op outcome, (op, outcome) ∈ s.queued →
    ∀ captured, ∃ s', step handlers s (.run op.target captured) = some s'

theorem isolated_of_run {handlers : Handlers Ω} {s : State Ω} {labels : List (Label Ω)}
    (hrun : (system handlers).run start labels = some s) : Isolated handlers s := by
  have hs := Invariant.of_run hrun
  constructor
  · exact hs.receives
  · intro rq
    obtain ⟨stage, hstage⟩ := hs.stage rq
    rw [hstage]
    exact own_view handlers rq stage
  · intro label s' h target hfails rq hrq
    cases label with
    | complete target' outcome =>
        obtain ⟨rfl, -⟩ := hfails
        obtain ⟨stage, hstage⟩ := hs.stage target'
        exact (view_complete hstage h).2 rq hrq
    | run target' captured =>
        obtain ⟨rfl, op, outcome, hop, hfailure⟩ := hfails
        exact view_run_failed hs hop hfailure h rq hrq
    | finish => cases hfails
  · intro hrunning op outcome hop captured
    exact run_enabled hs hrunning hop captured

def echoHandlers : Handlers Unit :=
  OrderedMap.empty.assign [104, 47, 97] fun _ =>
    some fun _ _ body response => response.setBody body

/-- Two requests at the same time: the body of the second one fails while the
first one is answered. -/
def twoRequests : List (Label Unit) :=
  let request (id : UInt8) : HttpRequest := ⟨[id], httpVerbGet, ⟨[104, 47, 97, 63], 8, some 3⟩⟩
  [.complete 0 (.receive (.ok (request 7))), .run 0 (), .finish,
    .complete 1 (.receive (.ok (request 8))), .run 1 (), .finish,
    .complete 1 (.receiveBody (some ⟨⟨995⟩, by decide⟩) []),
    .complete 0 (.receiveBody none [1, 2]), .run 0 (), .complete 0 (.send none), .finish,
    .run 1 (), .finish, .run 0 (), .finish]

theorem isolated_twoRequests : ∃ s, (system echoHandlers).run start twoRequests = some s ∧
    s.sends.length = 1 ∧ Isolated echoHandlers s :=
  ⟨_, rfl, rfl,
    isolated_of_run (show (system echoHandlers).run start twoRequests = some _ from rfl)⟩

end Winasio.ControllerIsolation
