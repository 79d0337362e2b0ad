import Winasio.ControllerIsolation

/-!
Who owns the contexts. The kernel has pointers into them, and a context is
destroyed with the last handler that captured it.
-/

namespace Winasio.ResponseOwnership

open Winasio.Transition
open Winasio.EraseFirst
open Winasio.Controller
open Winasio.ControllerView
open Winasio.ControllerIsolation

variable {Ω : Type}

/-- The context a handler captures: `receive` and `receiveBody` have the
`shared_ptr`, `send` has its own copy by value. -/
def owned : Closure → Nat
  | .receive rq | .receiveBody rq => rq
  | .send _ copy => copy

def closures (s : State Ω) : List Closure :=
  s.inKernel.map Operation.closure ++ s.queued.map (·.1.closure) ++ s.running.toList

def Alive (s : State Ω) (context : Nat) : Prop := context ∈ (closures s).map owned

instance (s : State Ω) (context : Nat) : Decidable (Alive s context) :=
  inferInstanceAs (Decidable (_ ∈ _))

/-- The kernel's pointers lead to contexts that are there. -/
def Owned (s : State Ω) : Prop := ∀ op ∈ s.inKernel, Alive s op.target

instance (s : State Ω) : Decidable (Owned s) :=
  inferInstanceAs (Decidable (∀ op ∈ s.inKernel, Alive s op.target))

def isSendOf (rq : Nat) : Call → Bool
  | .send target _ _ => target = rq
  | _ => false

theorem target_of_isSendOf {rq : Nat} {op : Operation} (h : isSendOf rq op.call = true) :
    op.target = rq := by
  cases hcall : op.call <;> simp_all [isSendOf, Operation.target, Call.target]

/-- When the handler of a body receive returns, the send it started is over. -/
def Awaited (s : State Ω) : Label Ω → Prop
  | .finish => ∀ rq, s.running = some (.receiveBody rq) →
      ∀ op ∈ s.inKernel, isSendOf rq op.call = false
  | _ => True

theorem alive_iff {s : State Ω} {context : Nat} : Alive s context ↔
    (∃ op ∈ s.inKernel, owned op.closure = context) ∨
      (∃ q ∈ s.queued, owned q.1.closure = context) ∨
        ∃ closure, s.running = some closure ∧ owned closure = context := by
  simp only [Alive, closures, List.map_append, List.mem_append, List.map_map, List.mem_map,
    Option.mem_toList, Function.comp_apply, or_assoc]

theorem alive_completed {s : State Ω} {target context : Nat} {op : Operation}
    (hop : s.inKernel.find? (·.target = target) = some op) (outcome : Outcome)
    (h : Alive s context) : Alive (completed s target op outcome) context := by
  rw [alive_iff] at h ⊢
  rcases h with ⟨op', hmem, howned⟩ | ⟨q, hmem, howned⟩ | hrunning
  · rcases mem_eraseP_or_eq hmem hop with hmem | rfl
    · exact .inl ⟨op', hmem, howned⟩
    · exact .inr (.inl ⟨_, List.mem_append_right _ (List.mem_singleton_self _), howned⟩)
  · exact .inr (.inl ⟨q, List.mem_append_left _ hmem, howned⟩)
  · exact .inr (.inr hrunning)

theorem alive_pop {s : State Ω} {target context : Nat} {op : Operation} {outcome : Outcome}
    (hrunning : s.running = none)
    (hop : s.queued.find? (·.1.target = target) = some (op, outcome)) (h : Alive s context) :
    Alive (pop s target op outcome) context := by
  rw [alive_iff] at h ⊢
  rcases h with hmem | ⟨q, hmem, howned⟩ | ⟨closure, hsome, -⟩
  · exact .inl hmem
  · rcases mem_eraseP_or_eq hmem hop with hmem | rfl
    · exact .inr (.inl ⟨q, hmem, howned⟩)
    · exact .inr (.inr ⟨op.closure, rfl, howned⟩)
  · cases hrunning.symm.trans hsome

theorem alive_append {s : State Ω} {context : Nat} (op : Operation) (h : Alive s context)
    {s' : State Ω} (hkernel : s'.inKernel = s.inKernel ++ [op])
    (hqueued : s'.queued = s.queued) (hrunning : s'.running = s.running) :
    Alive s' context := by
  rw [alive_iff] at h ⊢
  rw [hkernel, hqueued, hrunning]
  rcases h with ⟨op', hmem, howned⟩ | h
  · exact .inl ⟨op', List.mem_append_left _ hmem, howned⟩
  · exact .inr h

theorem owned_append {s s' : State Ω} (hs : Owned s) (op : Operation)
    (hkernel : s'.inKernel = s.inKernel ++ [op]) (hqueued : s'.queued = s.queued)
    (hrunning : s'.running = s.running)
    (hop : owned op.closure = op.target ∨ Alive s op.target) : Owned s' := by
  intro op' hop'
  rw [hkernel] at hop'
  rcases List.mem_append.mp hop' with hmem | hmem
  · exact alive_append op (hs op' hmem) hkernel hqueued hrunning
  · cases List.mem_singleton.mp hmem
    rcases hop with howned | halive
    · refine alive_iff.mpr (.inl ⟨op, ?_, howned⟩)
      rw [hkernel]
      exact List.mem_append_right _ (List.mem_singleton_self op)
    · exact alive_append op halive hkernel hqueued hrunning

theorem owned_completed {s : State Ω} (hs : Owned s) {target : Nat} {op : Operation}
    (hop : s.inKernel.find? (·.target = target) = some op) (outcome : Outcome) :
    Owned (completed s target op outcome) := by
  intro op' hop'
  exact alive_completed hop outcome (hs op' (List.mem_of_mem_eraseP hop'))

theorem owned_of_ran {handlers : Handlers Ω} {captured : Ω} {s s' : State Ω} {target : Nat}
    {stage : Stage Ω} (hs : Owned s)
    (halive : ∀ request data, stage = .bodyRead request none data → Alive s target)
    (h : Ran handlers captured target s stage s') : Owned s' := by
  cases h with
  | refused failure => exact owned_append hs _ rfl rfl rfl (.inl rfl)
  | header request hbody =>
      obtain ⟨request', -, rfl⟩ := Option.map_eq_some_iff.mp hbody
      have hnext : Owned s.receiveNextRequest := owned_append hs _ rfl rfl rfl (.inl rfl)
      exact owned_append hnext _ rfl rfl rfl (.inl rfl)
  | dropped request failure data => exact hs
  | dispatch request data => exact owned_append hs _ rfl rfl rfl (.inr (halive request data rfl))
  | finished request data captured' copy error => exact hs

def viewClosures (v : View Ω) : List Closure :=
  v.inKernel.map Operation.closure ++ v.queued.map (·.1.closure) ++ v.handled.map Prod.fst

theorem mem_viewClosures_completed (handlers : Handlers Ω) (rq : Nat) (stage : Stage Ω)
    (outcome : Outcome) (closure : Closure) :
    closure ∈ viewClosures ((stage.completed outcome).view handlers rq) ↔
      closure ∈ viewClosures (stage.view handlers rq) := by
  cases stage <;> cases outcome <;>
    simp [viewClosures, Stage.completed, Stage.view, View.withHeader, View.withResponse,
      sendOperation, or_comm, or_assoc]

theorem mem_viewClosures_ran (handlers : Handlers Ω) (captured : Ω) (copy rq : Nat)
    (stage : Stage Ω) (closure : Closure) :
    closure ∈ viewClosures ((stage.ran captured copy).view handlers rq) ↔
      closure ∈ viewClosures (stage.view handlers rq) ∨
        (∃ request, stage = .received (.ok request) ∧ closure = .receiveBody rq) ∨
        ∃ request data, stage = .bodyRead request none data ∧ closure = .send rq copy := by
  cases stage with
  | received result =>
      cases result <;> simp [viewClosures, Stage.ran, Stage.view, View.withHeader, or_comm]
  | bodyRead request error data =>
      cases error <;>
        simp [viewClosures, Stage.ran, Stage.view, View.withHeader, View.withResponse,
          sendOperation, or_comm, or_assoc]
  | sent request data captured' copy' error =>
      simp [viewClosures, Stage.ran, Stage.view, View.withResponse, sendOperation, or_comm,
        or_assoc]
  | unused | receiving | refused | readingBody | dropped | sending | finished => simp [Stage.ran]

theorem eq_of_mem_viewClosures_opens {handlers : Handlers Ω} {captured : Ω} {n : Nat}
    {stage : Stage Ω} {closure : Closure}
    (h : closure ∈ viewClosures ((stage.opens handlers captured).view handlers n)) :
    closure = .receive n := by
  cases stage with
  | received result => simpa [viewClosures, Stage.opens, Stage.view] using h
  | bodyRead request error data =>
      cases error <;> simp [viewClosures, Stage.opens, Stage.view] at h
  | unused | receiving | refused | readingBody | dropped | sending | sent | finished =>
      simp [viewClosures, Stage.opens, Stage.view] at h

theorem owned_ran_receive {handlers : Handlers Ω} {captured : Ω} {n rq : Nat}
    {stage : Stage Ω} {op op' : Operation} {outcome : Outcome}
    (hqueued : (stage.view handlers rq).queued = [(op, outcome)])
    (hclosure : op.closure = .receive rq)
    (hop' : op' ∈ ((stage.ran captured n).view handlers rq).inKernel) :
    owned op'.closure = rq := by
  cases stage with
  | received result =>
      cases result with
      | error failure => cases hop'
      | ok request =>
          cases List.mem_singleton.mp hop'
          rfl
  | bodyRead request error data =>
      cases hqueued
      cases hclosure
  | sent request data captured' copy error =>
      cases hqueued
      cases hclosure
  | unused | receiving | refused | readingBody | dropped | sending | finished => cases hqueued

/-- The copies the sends own are contexts of no request, the handler that runs
is one of its request, and the handler of a header receive runs before any
response of its request. -/
structure Captures (handlers : Handlers Ω) (s : State Ω) : Prop
    extends Invariant handlers s where
  copy : ∀ rq rq' n, .send rq' n ∈ viewClosures (view s rq) →
    ∃ ctx, view s n = (Stage.unused (some ctx)).view handlers n
  running : ∀ closure, s.running = some closure →
    closure ∈ viewClosures (view s closure.request)
  header : ∀ rq, s.running = some (.receive rq) →
    ∀ op ∈ (view s rq).inKernel, owned op.closure = rq

theorem captures_start (handlers : Handlers Ω) : Captures handlers start := by
  refine ⟨invariant_start handlers, ?_, nofun, nofun⟩
  intro rq rq' n hmem
  by_cases hrq : rq = 0
  · subst hrq
    simp [view, start, State.receiveNextRequest, viewClosures, Operation.target,
      Call.target] at hmem
  · simp [view, start, State.receiveNextRequest, viewClosures, Operation.target, Call.target,
      Ne.symm hrq] at hmem

theorem Captures.complete {handlers : Handlers Ω} {s s' : State Ω} {target : Nat}
    {outcome : Outcome} (hs : Captures handlers s)
    (h : step handlers s (.complete target outcome) = some s') : Captures handlers s' := by
  obtain ⟨stage, hstage⟩ := hs.stage target
  obtain ⟨hself, hother⟩ := view_complete hstage h
  have hclosures : ∀ rq closure,
      closure ∈ viewClosures (view s' rq) ↔ closure ∈ viewClosures (view s rq) := by
    intro rq closure
    by_cases hrq : rq = target
    · subst hrq
      rw [hself, hstage]
      exact mem_viewClosures_completed handlers rq stage outcome closure
    · rw [hother rq hrq]
  refine ⟨hs.toInvariant.step h, ?_, ?_, ?_⟩
  · intro rq rq' n hmem
    obtain ⟨ctx, hctx⟩ := hs.copy rq rq' n ((hclosures rq _).mp hmem)
    obtain ⟨op, hop, -, -⟩ := step_complete h
    have hne : n ≠ target := by
      rintro rfl
      rw [head?_inKernel, hctx] at hop
      cases hop
    exact ⟨ctx, (hother n hne).trans hctx⟩
  · intro closure hrunning
    obtain ⟨op, -, -, rfl⟩ := step_complete h
    exact (hclosures _ closure).mpr (hs.running closure hrunning)
  · intro rq hrunning op hop
    obtain ⟨op', -, -, rfl⟩ := step_complete h
    obtain ⟨hmem, hrq⟩ := List.mem_filter.mp hop
    exact hs.header rq hrunning op (List.mem_filter.mpr ⟨List.mem_of_mem_eraseP hmem, hrq⟩)

theorem running_of_ran {handlers : Handlers Ω} {captured : Ω} {s s' : State Ω}
    {target : Nat} {stage : Stage Ω} (h : Ran handlers captured target s stage s') :
    s'.running = s.running := by
  cases h with
  | header request hbody =>
      obtain ⟨request', -, rfl⟩ := Option.map_eq_some_iff.mp hbody
      rfl
  | refused | dropped | dispatch | finished => rfl

theorem Captures.run {handlers : Handlers Ω} {captured : Ω} {s s' : State Ω} {target : Nat}
    (hs : Captures handlers s) (h : step handlers s (.run target captured) = some s') :
    Captures handlers s' := by
  obtain ⟨stage, hstage⟩ := hs.stage target
  obtain ⟨hself, hopens, hother, -⟩ := view_run hs.toInvariant hstage h
  obtain ⟨op, outcome, -, -, hqueued, hrequest, hran⟩ := ran_of_step hstage h
  have hrunning' : s'.running = some op.closure := running_of_ran hran
  have hfresh := hs.toInvariant.fresh
  have hcopy : ∀ n, (∃ ctx, view s n = (Stage.unused (some ctx)).view handlers n) →
      ∃ ctx, view s' n = (Stage.unused (some ctx)).view handlers n := by
    rintro n ⟨ctx, hctx⟩
    refine ⟨ctx, (hother n ?_ ?_).trans hctx⟩
    · rintro rfl
      rw [← hstage, hctx] at hqueued
      cases hqueued
    · rintro rfl
      cases congrArg View.context (hfresh.symm.trans hctx)
  refine ⟨hs.toInvariant.step h, ?_, ?_, ?_⟩
  · intro rq rq' n hmem
    by_cases hrq : rq = target
    · subst hrq
      rw [hself, mem_viewClosures_ran] at hmem
      rcases hmem with hmem | ⟨_, _, hclosure⟩ | ⟨request, data, rfl, hclosure⟩
      · rw [← hstage] at hmem
        exact hcopy n (hs.copy rq rq' n hmem)
      · cases hclosure
      · cases hclosure
        exact ⟨_, hopens⟩
    · by_cases hlen : rq = s.contexts.length
      · subst hlen
        rw [hopens] at hmem
        cases eq_of_mem_viewClosures_opens hmem
      · rw [hother rq hrq hlen] at hmem
        exact hcopy n (hs.copy rq rq' n hmem)
  · intro closure hrunning
    cases hrunning'.symm.trans hrunning
    rw [hrequest, hself, mem_viewClosures_ran]
    exact .inl (by simp [viewClosures, hqueued])
  · intro rq hrunning op' hop'
    have hclosure := Option.some.inj (hrunning'.symm.trans hrunning)
    obtain rfl : rq = target := by
      rw [hclosure] at hrequest
      exact hrequest
    rw [hself] at hop'
    exact owned_ran_receive hqueued hclosure hop'

theorem Captures.step {handlers : Handlers Ω} {s s' : State Ω} {label : Label Ω}
    (hs : Captures handlers s) (h : step handlers s label = some s') :
    Captures handlers s' := by
  cases label with
  | complete target outcome => exact hs.complete h
  | run target captured => exact hs.run h
  | finish =>
      have hinvariant := hs.toInvariant.step h
      obtain ⟨-, rfl⟩ := step_finish h
      exact ⟨hinvariant, hs.copy, nofun, nofun⟩

theorem owned_or_send {handlers : Handlers Ω} {rq : Nat} {stage : Stage Ω}
    {op : Operation} (hop : op ∈ (stage.view handlers rq).inKernel) :
    (owned op.closure = rq ∧ isSendOf rq op.call = false) ∨
      ∃ request data captured copy, stage = .sending request data captured copy ∧
        op = sendOperation handlers rq request data captured copy := by
  cases stage with
  | receiving | readingBody =>
      cases List.mem_singleton.mp hop
      exact .inl ⟨rfl, rfl⟩
  | sending request data captured copy =>
      cases List.mem_singleton.mp hop
      exact .inr ⟨request, data, captured, copy, rfl, rfl⟩
  | unused | received | refused | bodyRead | dropped | sent | finished => cases hop

theorem mem_view_of_outstanding {s : State Ω} {op : Operation} (hop : op ∈ outstanding s) :
    op ∈ (view s op.target).inKernel ++ (view s op.target).queued.map Prod.fst := by
  rcases List.mem_append.mp hop with hop | hop
  · exact List.mem_append_left _ (List.mem_filter.mpr ⟨hop, by simp⟩)
  · obtain ⟨q, hq, rfl⟩ := List.mem_map.mp hop
    exact List.mem_append_right _
      (List.mem_map_of_mem (List.mem_filter.mpr ⟨hq, by simp⟩))

/-- While the response of `rq` is sent no operation owns the context of `rq`. -/
theorem owned_ne_of_sending {handlers : Handlers Ω} {s : State Ω} (hs : Captures handlers s)
    {rq : Nat} {request : HttpRequest} {data : Bytes} {captured : Ω} {copy : Nat}
    (hsending : view s rq = (Stage.sending request data captured copy).view handlers rq)
    {op : Operation} (hop : op ∈ outstanding s) : owned op.closure ≠ rq := by
  intro howned
  have hmem := mem_view_of_outstanding hop
  obtain ⟨stage, hstage⟩ := hs.stage op.target
  have hrequest : op.closure.request = op.target := by
    rw [hstage] at hmem
    exact (own_view handlers op.target stage).operation op hmem
  cases hclosure : op.closure with
  | receive r | receiveBody r =>
      rw [hclosure] at hrequest howned
      have htarget : op.target = rq := hrequest.symm.trans howned
      rw [htarget, hsending] at hmem
      cases List.mem_singleton.mp hmem
      cases hclosure
  | send r n =>
      rw [hclosure] at howned
      have hcopy : .send r n ∈ viewClosures (view s op.target) := by
        rw [← hclosure]
        exact List.mem_append_left _ (by simpa using List.mem_map_of_mem hmem)
      obtain ⟨ctx, hctx⟩ := hs.copy op.target r n hcopy
      rw [show n = rq from howned] at hctx
      cases congrArg View.inKernel (hsending.symm.trans hctx)

/-- The handler that runs is released: what it alone owned is gone. -/
theorem owned_finish_iff {handlers : Handlers Ω} {s : State Ω} (hs : Captures handlers s)
    (howned : Owned s) :
    Owned { s with running := none } ↔
      ∀ rq, s.running = some (.receiveBody rq) →
        ∀ op ∈ s.inKernel, isSendOf rq op.call = false := by
  constructor
  · intro h rq hrunning op hop
    by_contra hsend
    have htarget : op.target = rq := target_of_isSendOf (by simpa using hsend)
    subst htarget
    obtain ⟨stage, hstage⟩ := hs.stage op.target
    have hmem : op ∈ (view s op.target).inKernel := List.mem_filter.mpr ⟨hop, by simp⟩
    rw [hstage] at hmem
    rcases owned_or_send hmem with ⟨-, hnot⟩ | ⟨request, data, captured, copy, rfl, -⟩
    · exact hsend hnot
    · rcases alive_iff.mp (h op hop) with ⟨op', hop', howned'⟩ | ⟨q, hq, howned'⟩ | ⟨_, h', -⟩
      · exact owned_ne_of_sending hs hstage (List.mem_append_left _ hop') howned'
      · exact owned_ne_of_sending hs hstage
          (List.mem_append_right _ (List.mem_map_of_mem hq)) howned'
      · cases h'
  · intro h op hop
    obtain ⟨stage, hstage⟩ := hs.stage op.target
    have hmem : op ∈ (view s op.target).inKernel := List.mem_filter.mpr ⟨hop, by simp⟩
    rw [alive_iff]
    rcases alive_iff.mp (howned op hop) with hkernel | hqueued | ⟨closure, hrunning, hclosure⟩
    · exact .inl hkernel
    · exact .inr (.inl hqueued)
    · -- only the running handler is left as an owner: the operation is not a send
      refine .inl ⟨op, hop, ?_⟩
      cases closure with
      | receive rq =>
          cases hclosure
          exact hs.header op.target hrunning op hmem
      | receiveBody rq =>
          cases hclosure
          have hnot := h op.target hrunning op hop
          rw [hstage] at hmem
          rcases owned_or_send hmem with ⟨hself, -⟩ | ⟨request, data, captured, copy, -, hsend⟩
          · exact hself
          · rw [hsend] at hnot
            simp [sendOperation, isSendOf, Operation.target, Call.target] at hnot
      | send rq copy =>
          have hcopy := hs.copy rq rq copy (hs.running _ hrunning)
          obtain ⟨ctx, hctx⟩ := hcopy
          rw [show copy = op.target from hclosure] at hctx
          rw [hctx] at hmem
          cases hmem

theorem owned_step_iff {handlers : Handlers Ω} {s s' : State Ω} {label : Label Ω}
    (hs : Captures handlers s) (howned : Owned s) (h : step handlers s label = some s') :
    Owned s' ↔ Awaited s label := by
  cases label with
  | complete target outcome =>
      obtain ⟨op, hop, -, rfl⟩ := step_complete h
      exact iff_of_true (owned_completed howned hop outcome) trivial
  | run target captured =>
      refine iff_of_true ?_ trivial
      obtain ⟨stage, hstage⟩ := hs.stage target
      obtain ⟨op, outcome, hrunning, hop, hqueued, -, hran⟩ := ran_of_step hstage h
      have hpop : Owned (pop s target op outcome) :=
        fun op' hop' => alive_pop hrunning hop (howned op' hop')
      refine owned_of_ran hpop ?_ hran
      rintro request data rfl
      cases hqueued
      exact alive_iff.mpr (.inr (.inr ⟨_, rfl, rfl⟩))
  | finish =>
      obtain ⟨-, rfl⟩ := step_finish h
      exact owned_finish_iff hs howned

theorem owned_start : Owned (start : State Ω) := by
  intro op hop
  cases List.mem_singleton.mp hop
  exact alive_iff.mpr (.inl ⟨_, hop, rfl⟩)

/-- The contexts are there for the kernel all along a run exactly if no handler
of a body receive returns before the send it started is over. -/
theorem owned_iff_awaited (handlers : Handlers Ω) (labels : List (Label Ω)) :
    (system handlers).AllStates Owned start labels ↔
      (system handlers).AllSteps Awaited start labels :=
  System.allStates_iff_allSteps (I := Captures handlers) (fun _ _ _ hs h => hs.step h)
    (fun _ _ _ hs howned h => owned_step_iff hs howned h) (captures_start handlers)
    owned_start labels

/-- The handler of the body receive returns while the kernel still sends the
response. -/
def pendingSend : List (Label Unit) :=
  [.complete 0 (.receive (.ok ⟨[7], httpVerbGet, ⟨[104, 47, 97, 63], 8, some 3⟩⟩)),
    .run 0 (), .finish, .complete 0 (.receiveBody none [1, 2]), .run 0 (), .finish]

theorem not_owned_pendingSend :
    ∃ s, (system echoHandlers).run start pendingSend = some s ∧ ¬ Owned s :=
  ⟨_, rfl, by decide⟩

end Winasio.ResponseOwnership
