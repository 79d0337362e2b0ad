import Winasio.Controller
import Winasio.EraseFirst

/-!
What a step of the controller does, and what one request sees of it.
-/

namespace Winasio.ControllerView

open Winasio.Transition
open Winasio.EraseFirst
open Winasio.Convert
open Winasio.Controller

variable {Ω : Type}

/-- What there is of one request: its context, its operations, the handlers
that ran for it, and what they did. -/
@[ext] structure View (Ω : Type) where
  context : Option RequestContext
  inKernel : List Operation
  queued : List (Operation × Outcome)
  handled : List (Closure × Outcome)
  dispatched : List (Dispatch Ω)
  sends : List Send

def View.popped (v : View Ω) : View Ω :=
  { v with
    queued := v.queued.tail
    handled := v.handled ++ (v.queued.head?.map fun q => (q.1.closure, q.2)).toList }

def view (s : State Ω) (rq : Nat) : View Ω where
  context := s.contexts[rq]?
  inKernel := s.inKernel.filter (·.target = rq)
  queued := s.queued.filter (·.1.target = rq)
  handled := s.handled.filter (·.1.request = rq)
  dispatched := s.dispatched.filter (·.request = rq)
  sends := s.sends.filter (·.request = rq)

theorem lt_length_of_context {s : State Ω} {rq : Nat} {ctx : RequestContext}
    (h : (view s rq).context = some ctx) : rq < s.contexts.length :=
  (List.getElem?_eq_some_iff.mp h).1

def pop (s : State Ω) (target : Nat) (op : Operation) (outcome : Outcome) : State Ω :=
  { s with
    queued := s.queued.eraseP (·.1.target = target)
    running := some op.closure
    handled := s.handled ++ [(op.closure, outcome)] }

def completed (s : State Ω) (target : Nat) (op : Operation) (outcome : Outcome) : State Ω :=
  { s with
    contexts := s.contexts.modify target outcome.store
    inKernel := s.inKernel.eraseP (·.target = target)
    queued := s.queued ++ [(op, outcome)] }

theorem head?_inKernel (s : State Ω) (rq : Nat) :
    s.inKernel.find? (·.target = rq) = (view s rq).inKernel.head? :=
  List.head?_filter.symm

theorem head?_queued (s : State Ω) (rq : Nat) :
    s.queued.find? (·.1.target = rq) = (view s rq).queued.head? :=
  List.head?_filter.symm

theorem step_complete {handlers : Handlers Ω} {s s' : State Ω} {target : Nat} {outcome : Outcome}
    (h : step handlers s (.complete target outcome) = some s') :
    ∃ op, s.inKernel.find? (·.target = target) = some op ∧ op.call.admits outcome = true ∧
      s' = completed s target op outcome := by
  simp only [step] at h
  split at h
  · next op hop =>
      obtain ⟨hadmits, hs'⟩ := Option.ite_none_right_eq_some.mp h
      exact ⟨op, hop, hadmits, (Option.some.inj hs').symm⟩
  · cases h

theorem step_run {handlers : Handlers Ω} {s s' : State Ω} {target : Nat} {captured : Ω}
    (h : step handlers s (.run target captured) = some s') :
    ∃ op outcome, s.running = none ∧
      s.queued.find? (·.1.target = target) = some (op, outcome) ∧
      (pop s target op outcome).handle handlers captured op.closure outcome = some s' := by
  simp only [step] at h
  split at h
  · next op outcome hrunning hop => exact ⟨op, outcome, hrunning, hop, h⟩
  · cases h

theorem step_finish {handlers : Handlers Ω} {s s' : State Ω}
    (h : step handlers s .finish = some s') :
    s.running ≠ none ∧ s' = { s with running := none } := by
  simp only [step] at h
  split at h
  · next closure hrunning =>
      exact ⟨by simp [hrunning], (Option.some.inj h).symm⟩
  · cases h

theorem view_completed_other (s : State Ω) {target rq : Nat} (hne : rq ≠ target)
    (op : Operation) (hop : op.target = target) (outcome : Outcome) :
    view (completed s target op outcome) rq = view s rq := by
  have htarget : ¬ op.target = rq := fun h => hne (h.symm.trans hop)
  ext1
  · simp [view, completed, Ne.symm hne]
  · exact filter_eraseP_of_disjoint (by simp; intro x hx; omega) s.inKernel
  · simp [view, completed, htarget]
  all_goals rfl

theorem view_completed_self (s : State Ω) {target : Nat} (op : Operation)
    (hop : op.target = target) (outcome : Outcome) :
    view (completed s target op outcome) target =
      { view s target with
        context := (view s target).context.map outcome.store
        inKernel := (view s target).inKernel.tail
        queued := (view s target).queued ++ [(op, outcome)] } := by
  ext1
  · simp [view, completed]
  · exact filter_eraseP_self _ s.inKernel
  · simp [view, completed, hop]
  all_goals rfl

theorem view_pop_other (s : State Ω) {target rq : Nat} (hne : rq ≠ target) (op : Operation)
    (hop : op.closure.request = target) (outcome : Outcome) :
    view (pop s target op outcome) rq = view s rq := by
  have hrequest : ¬ op.closure.request = rq := fun h => hne (h.symm.trans hop)
  ext1
  · rfl
  · rfl
  · exact filter_eraseP_of_disjoint (by simp; intro x y hx; omega) s.queued
  · simp [view, pop, hrequest]
  all_goals rfl

theorem view_pop_self {s : State Ω} {target : Nat} {op : Operation} {outcome : Outcome}
    (hop : s.queued.find? (·.1.target = target) = some (op, outcome))
    (hrequest : op.closure.request = target) :
    view (pop s target op outcome) target = (view s target).popped := by
  ext1
  · rfl
  · rfl
  · exact filter_eraseP_self _ s.queued
  · simp [View.popped, view, pop, hrequest, hop]
  all_goals rfl

theorem view_receiveNextRequest_other {s : State Ω} {n rq : Nat}
    (hn : s.contexts.length = n) (hne : rq ≠ n) :
    view s.receiveNextRequest rq = view s rq := by
  subst hn
  ext1
  · simp only [view, State.receiveNextRequest, List.getElem?_append]
    split
    · rfl
    · rw [List.getElem?_eq_none (by simp; omega), List.getElem?_eq_none (by omega)]
  · simp [view, State.receiveNextRequest, Operation.target, Call.target, Ne.symm hne]
  all_goals rfl

theorem view_receiveNextRequest_self {s : State Ω} {n : Nat} (hn : s.contexts.length = n) :
    view s.receiveNextRequest n =
      { view s n with
        context := some {}
        inKernel := (view s n).inKernel ++ [⟨.receive n, .receive n⟩] } := by
  subst hn
  ext1
  · exact List.getElem?_concat_length
  · simp [view, State.receiveNextRequest, Operation.target, Call.target]
  all_goals rfl

theorem view_receiveBody {s s' : State Ω} {rq : Nat} (h : s.receiveBody rq = some s') :
    (∀ rq', rq' ≠ rq → view s' rq' = view s rq') ∧
      ∃ request, s.getRequest rq = some request ∧ view s' rq =
        { view s rq with
          inKernel := (view s rq).inKernel ++
            [⟨.receiveBody rq, .receiveBody rq request.requestId⟩] } := by
  obtain ⟨request, hrequest, rfl⟩ := Option.map_eq_some_iff.mp h
  refine ⟨?_, request, hrequest, ?_⟩
  · intro rq' hne
    ext1
    · rfl
    · simp [view, Operation.target, Call.target, Ne.symm hne]
    all_goals rfl
  · ext1
    · rfl
    · simp [view, Operation.target, Call.target]
    all_goals rfl

theorem exists_receiveBody {s : State Ω} {rq : Nat} {ctx : RequestContext}
    {request : HttpRequest} (hctx : s.contexts[rq]? = some ctx)
    (hrequest : ctx.request = some request) :
    ∃ s', s.receiveNextRequest.receiveBody rq = some s' := by
  have hne : rq ≠ s.contexts.length := Nat.ne_of_lt (lt_length_of_context hctx)
  have hcontext := congrArg View.context (view_receiveNextRequest_other rfl hne)
  refine ⟨_, Option.map_eq_some_iff.mpr ⟨request, ?_, rfl⟩⟩
  exact (congrArg (·.bind RequestContext.request) (hcontext.trans hctx)).trans hrequest

/-- `dispatch` has built the response of `rq` in its context and sends it. -/
def answered (s : State Ω) (rq : Nat) (request : HttpRequest) (ctx : RequestContext)
    (captured : Ω) : State Ω :=
  { s with
    contexts := s.contexts.set rq ctx ++ [ctx]
    inKernel := s.inKernel ++
      [⟨.send rq s.contexts.length, .send rq request.requestId ctx.response.resp.contents⟩]
    dispatched := s.dispatched ++ [⟨rq, request.verb, request.url, ctx.body, captured⟩]
    sends := s.sends ++ [⟨rq, request.requestId, ctx.response.resp.contents⟩] }

theorem dispatch_eq (handlers : Handlers Ω) (captured : Ω) {s : State Ω} {rq : Nat}
    {ctx : RequestContext} {request : HttpRequest} (hctx : s.contexts[rq]? = some ctx)
    (hrequest : ctx.request = some request) :
    s.dispatch handlers captured rq = some (answered s rq request
      { ctx with
        response := (respond handlers captured request ctx.body ctx.response).getResponse }
      captured) := by
  simp only [State.dispatch, hctx, Option.bind_some, hrequest, Option.map_some, answered]

theorem view_answered_other {s : State Ω} {n rq rq' : Nat} (hn : s.contexts.length = n)
    (hne : rq' ≠ rq) (hfresh : rq' ≠ n) (request : HttpRequest) (ctx : RequestContext)
    (captured : Ω) : view (answered s rq request ctx captured) rq' = view s rq' := by
  subst hn
  ext1
  · simp only [view, answered, List.getElem?_append, List.length_set]
    split
    · exact List.getElem?_set_ne hne.symm
    · rw [List.getElem?_eq_none (by simp; omega), List.getElem?_eq_none (by omega)]
  all_goals simp [view, answered, Operation.target, Call.target, hne.symm]

theorem view_answered_self {s : State Ω} {n rq : Nat} (hn : s.contexts.length = n)
    (hrq : rq < n) (request : HttpRequest) (ctx : RequestContext) (captured : Ω) :
    view (answered s rq request ctx captured) rq =
      { view s rq with
        context := some ctx
        inKernel := (view s rq).inKernel ++
          [⟨.send rq n, .send rq request.requestId ctx.response.resp.contents⟩]
        dispatched := (view s rq).dispatched ++
          [⟨rq, request.verb, request.url, ctx.body, captured⟩]
        sends := (view s rq).sends ++
          [⟨rq, request.requestId, ctx.response.resp.contents⟩] } := by
  subst hn
  ext1
  · simp [view, answered, List.getElem?_append, hrq]
  all_goals simp [view, answered, Operation.target, Call.target]

theorem view_answered_copy {s : State Ω} {n rq : Nat} (hn : s.contexts.length = n)
    (hrq : rq < n) (request : HttpRequest) (ctx : RequestContext) (captured : Ω) :
    view (answered s rq request ctx captured) n = { view s n with context := some ctx } := by
  subst hn
  have hne : rq ≠ s.contexts.length := Nat.ne_of_lt hrq
  ext1
  · simp [view, answered]
  all_goals simp [view, answered, Operation.target, Call.target, hne]

end Winasio.ControllerView
