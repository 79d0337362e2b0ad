import Mathlib.Tactic.IntervalCases
import Winasio.RequestContext
import Winasio.Transition

/-!
The step protocol of a request context: the thread of the client, which
initiates the steps and runs their handlers, interleaved action by action with
the WinHTTP thread, which runs the status callback.
-/

namespace Winasio.StepProtocol

open Winasio.RequestContext
open Winasio.Transition

/-- What is known of one issued step. `outcome` is WinHTTP's own answer to it,
`recorded` says that the event was set for it, and `handled` lists what its
handler was invoked with. -/
structure StepRun where
  kind : StepKind
  outcome : Option StepResult := none
  recorded : Bool := false
  handled : List (ErrorCode × Option Nat) := []
  deriving DecidableEq, Repr

/-- The context with both threads. Steps are numbered in the order they are
issued; `inFlight`, `registered` and `queued` hold the numbers of the steps
whose call WinHTTP accepted and has not answered, whose wait is registered,
and whose handler is about to run. -/
structure Protocol where
  ctx : AsioRequestContext := {}
  client : List Action := []
  callback : Option (Nat × List Action) := none
  inFlight : List Nat := []
  registered : List Nat := []
  queued : List Nat := []
  contextSet : Bool := false
  steps : List StepRun := []
  assertsHold : Bool := true
  deriving DecidableEq, Repr

/-- `issue` starts one of the five functions; `apiAccepts` and `apiFails` are
the two results of its WinHTTP call and `client` every other action of it.
`callback` enters the status callback, with the context or with null;
`callbackStep` is an action of it. `waitFires` posts the handler of a
registered wait, `handler` runs it. -/
inductive Label where
  | issue (kind : StepKind)
  | apiAccepts
  | apiFails (ec : ErrorCode)
  | client
  | callback (dwContext : Bool) (n : Notification)
  | callbackStep
  | waitFires
  | handler
  deriving DecidableEq, Repr

namespace Protocol

def current (s : Protocol) : Nat := s.steps.length - 1

def previousHandled (s : Protocol) : Bool :=
  s.steps.getLast?.all fun r => !r.handled.isEmpty

/-- Perform an action on the context for step `k`; setting the event records
the result. -/
def perform (s : Protocol) (k : Nat) (a : Action) : Protocol :=
  { s with
    ctx := s.ctx.exec a
    steps := if a = .setEvent then s.steps.modify k ({ · with recorded := true })
      else s.steps }

def enterCallback (s : Protocol) (k : Nat) (dwContext : Bool) (n : Notification) : Protocol :=
  if dwContext then
    let run := basicAsioAsyncCallback s.ctx.state n
    { s with
      callback := run.complete.map fun r => (k, stepComplete r.1 r.2)
      steps := s.steps.modify k ({ · with outcome := some n.result })
      assertsHold := s.assertsHold && run.assertsHold }
  else s

def runHandler (s : Protocol) (k : Nat) : Protocol :=
  { s with
    steps := s.steps.modify k fun r =>
      { r with handled := r.handled ++ [r.kind.handlerArgs (s.ctx.stepEc, s.ctx.stepLen)] } }

end Protocol

def step (s : Protocol) : Label → Option Protocol
  | .issue kind =>
      if s.client = [] ∧ s.previousHandled then
        some { s with client := kind.initiate, steps := s.steps ++ [{ kind }] }
      else none
  | .apiAccepts =>
      match s.client with
      | .callApi :: rest => some
          { s with
            client := .returnApi .success :: rest
            inFlight := s.inFlight ++ [s.current]
            -- the context value travels with the call that sends the request
            contextSet := s.contextSet || s.steps[s.current]?.any (·.kind == .send) }
      | _ => none
  | .apiFails ec =>
      match s.client with
      | .callApi :: rest => some
          { s with
            client := .returnApi ec :: rest
            steps := if ec.failed then
                s.steps.modify s.current ({ · with outcome := some (ec, 0) })
              else s.steps }
      | _ => none
  | .client =>
      match s.client with
      | [] | .callApi :: _ => none
      | .returnApi ec :: rest => some { s with client := afterApi ec ++ rest }
      | .asyncWait :: rest => some
          { s with client := rest, registered := s.registered ++ [s.current] }
      | a :: rest => some { s.perform s.current a with client := rest }
  | .callback dwContext n =>
      match s.callback, s.inFlight with
      | none, k :: rest =>
          if s.steps[k]?.any (·.kind.Matches n) ∧ (s.contextSet = true → dwContext = true) then
            some { s.enterCallback k dwContext n with inFlight := rest }
          else none
      | _, _ => none
  | .callbackStep =>
      match s.callback with
      | some (k, a :: rest) => some
          { s.perform k a with callback := if rest = [] then none else some (k, rest) }
      | _ => none
  | .waitFires =>
      match s.registered with
      | k :: rest =>
          if s.ctx.stepEvent then
            some { s with registered := rest, queued := s.queued ++ [k] }
          else none
      | [] => none
  | .handler =>
      match s.queued with
      | k :: rest => some { s.runHandler k with queued := rest }
      | [] => none

def system : System Protocol Label := ⟨step⟩

/-- A step that is over: its result was recorded and handed to its handler,
once. -/
def StepRun.Done (r : StepRun) : Prop :=
  ∃ o, r.outcome = some o ∧ r.recorded = true ∧ r.handled = [r.kind.handlerArgs o]

/-- The end of an initiating function whose call did not fail: it is still in
the call, about to register the wait, or has registered it. -/
inductive Returning (k : Nat) : List Action → List Nat → Prop
  | inCall {ec : ErrorCode} (h : ec.failed = false) :
      Returning k [.returnApi ec, .asyncWait] []
  | beforeWait : Returning k [.asyncWait] []
  | waiting : Returning k [] [k]

/-- Where the current step, which follows the steps `past`, stands. -/
inductive Phase : Protocol → Prop
  | idle {ctx contextSet past} (done : ∀ r ∈ past, r.Done) :
      Phase { ctx, contextSet, steps := past }
  | preparing {ctx ctx₀ contextSet past} {kind : StepKind} (n : Nat)
      (done : ∀ r ∈ past, r.Done) (hn : n ≤ 4)
      (hctx : ctx = ((asyncStep kind.state).take n).foldl AsioRequestContext.exec ctx₀) :
      Phase { ctx, contextSet, client := (asyncStep kind.state).drop n,
              steps := past ++ [{ kind }] }
  | accepted {ctx contextSet past client registered} {kind : StepKind}
      (done : ∀ r ∈ past, r.Done) (hstate : ctx.state = kind.state)
      (hevent : ctx.stepEvent = false) (hret : Returning past.length client registered) :
      Phase { ctx, contextSet, client, registered, inFlight := [past.length],
              steps := past ++ [{ kind }] }
  | recording {ctx ctx₀ contextSet past client registered} {kind : StepKind}
      {o : StepResult} (n : Nat) (done : ∀ r ∈ past, r.Done) (hn : n ≤ 2)
      (hevent : ctx₀.stepEvent = false)
      (hctx : ctx = ((stepComplete o.1 o.2).take n).foldl AsioRequestContext.exec ctx₀)
      (hret : Returning past.length client registered) :
      Phase { ctx, contextSet, client, registered,
              callback := some (past.length, (stepComplete o.1 o.2).drop n),
              steps := past ++ [{ kind, outcome := some o }] }
  | failing {ctx contextSet past} {kind : StepKind} {ec : ErrorCode}
      (done : ∀ r ∈ past, r.Done) (hevent : ctx.stepEvent = false) (hec : ec.failed = true) :
      Phase { ctx, contextSet, client := [.returnApi ec, .asyncWait],
              steps := past ++ [{ kind, outcome := some (ec, 0) }] }
  | completing {ctx ctx₀ contextSet past} {kind : StepKind} {ec : ErrorCode} (n : Nat)
      (done : ∀ r ∈ past, r.Done) (hn : n ≤ 3) (hevent : ctx₀.stepEvent = false)
      (hctx : ctx = ((.setState .error :: stepComplete ec 0).take n).foldl
        AsioRequestContext.exec ctx₀) :
      Phase { ctx, contextSet,
              client := (.setState .error :: stepComplete ec 0).drop n ++ [.asyncWait],
              steps := past ++ [{ kind, outcome := some (ec, 0) }] }
  | unanswered {ctx contextSet past client registered} {kind : StepKind}
      (done : ∀ r ∈ past, r.Done) (hevent : ctx.stepEvent = false)
      (hret : Returning past.length client registered) :
      Phase { ctx, contextSet, client, registered, steps := past ++ [{ kind }] }
  | recorded {ctx contextSet past client registered} {kind : StepKind} {o : StepResult}
      (done : ∀ r ∈ past, r.Done) (hevent : ctx.stepEvent = true)
      (hslot : (ctx.stepEc, ctx.stepLen) = o)
      (hret : Returning past.length client registered) :
      Phase { ctx, contextSet, client, registered,
              steps := past ++ [{ kind, outcome := some o, recorded := true }] }
  | enabled {ctx contextSet past} {kind : StepKind} {o : StepResult}
      (done : ∀ r ∈ past, r.Done) (hevent : ctx.stepEvent = true)
      (hslot : (ctx.stepEc, ctx.stepLen) = o) :
      Phase { ctx, contextSet, queued := [past.length],
              steps := past ++ [{ kind, outcome := some o, recorded := true }] }

@[simp] theorem modify_concat {α : Type*} (past : List α) (r : α) (f : α → α) :
    (past ++ [r]).modify past.length f = past ++ [f r] := by
  induction past with
  | nil => rfl
  | cons a past ih => simpa using ih

theorem Returning.client_step {k : Nat} {s s' : Protocol} (h : Returning k s.client s.registered)
    (hcurrent : s.current = k) (hs : step s .client = some s') :
    ∃ client registered, Returning k client registered ∧
      s' = { s with client, registered } := by
  obtain ⟨ctx, client, callback, inFlight, registered, queued, contextSet, steps, ok⟩ := s
  cases h with
  | inCall hec =>
      simp only [step, afterApi, hec, Option.some.injEq] at hs
      exact ⟨_, _, .beforeWait, by simpa using hs.symm⟩
  | beforeWait =>
      simp only [step, Option.some.injEq] at hs
      exact ⟨_, _, .waiting, by simpa [hcurrent] using hs.symm⟩
  | waiting => simp [step] at hs

theorem phase_step_idle {ctx : AsioRequestContext} {contextSet : Bool} {past : List StepRun}
    (done : ∀ r ∈ past, r.Done) {l : Label} {s' : Protocol}
    (hs : step { ctx, contextSet, steps := past } l = some s') : Phase s' := by
  cases l <;> simp [step] at hs
  case issue kind =>
    rw [← hs.2, kind.initiate_eq]
    exact .preparing 0 done (by omega) rfl

theorem phase_step_preparing {ctx ctx₀ : AsioRequestContext} {contextSet : Bool}
    {past : List StepRun} {kind : StepKind} (n : Nat) (done : ∀ r ∈ past, r.Done) (hn : n ≤ 4)
    (hctx : ctx = ((asyncStep kind.state).take n).foldl AsioRequestContext.exec ctx₀)
    {l : Label} {s' : Protocol}
    (hs : step { ctx, contextSet, client := (asyncStep kind.state).drop n,
                 steps := past ++ [{ kind }] } l = some s') : Phase s' := by
  obtain hlt | rfl : n < 4 ∨ n = 4 := by omega
  · cases l
    case client =>
      obtain rfl | rfl | rfl | rfl : n = 0 ∨ n = 1 ∨ n = 2 ∨ n = 3 := by omega
      all_goals
        simp [step, asyncStep, stepReset, Protocol.perform] at hs
        rw [← hs, hctx]
      · exact .preparing 1 done (by omega) rfl
      · exact .preparing 2 done (by omega) rfl
      · exact .preparing 3 done (by omega) rfl
      · exact .preparing 4 done (by omega) rfl
    all_goals
      interval_cases n <;> simp [step, asyncStep, stepReset] at hs
  · have hevent : ctx.stepEvent = false := by simp [hctx, asyncStep, stepReset,
      AsioRequestContext.exec]
    have hstate : ctx.state = kind.state := by simp [hctx, asyncStep, stepReset,
      AsioRequestContext.exec]
    cases l <;> simp [step, asyncStep, stepReset, Protocol.current] at hs
    case apiAccepts =>
      rw [← hs]
      exact .accepted done hstate hevent (.inCall rfl)
    case apiFails ec =>
      rw [← hs]
      by_cases hec : ec.failed = true
      · rw [if_pos hec]
        exact .failing done hevent hec
      · rw [if_neg hec]
        exact .unanswered done hevent (.inCall (by simpa using hec))

theorem phase_step_accepted {ctx : AsioRequestContext} {contextSet : Bool}
    {past : List StepRun} {client : List Action} {registered : List Nat} {kind : StepKind}
    (done : ∀ r ∈ past, r.Done) (hstate : ctx.state = kind.state)
    (hevent : ctx.stepEvent = false) (hret : Returning past.length client registered)
    {l : Label} {s' : Protocol}
    (hs : step { ctx, contextSet, client, registered, inFlight := [past.length],
                 steps := past ++ [{ kind }] } l = some s') : Phase s' := by
  cases l
  case client =>
    obtain ⟨client', registered', hret', rfl⟩ :=
      Returning.client_step hret (by simp [Protocol.current]) hs
    exact .accepted done hstate hevent hret'
  case callback dwContext n =>
    simp [step] at hs
    obtain ⟨⟨hmatches, -⟩, rfl⟩ := hs
    cases dwContext with
    | false => exact .unanswered done hevent hret
    | true =>
        have hrun := basicAsioAsyncCallback_of_matches hmatches
        simp [Protocol.enterCallback, hstate, hrun]
        exact .recording 0 done (by omega) hevent rfl hret
  all_goals
    cases hret <;> simp [step, Protocol.previousHandled, hevent] at hs

theorem phase_step_recording {ctx ctx₀ : AsioRequestContext} {contextSet : Bool}
    {past : List StepRun} {client : List Action} {registered : List Nat} {kind : StepKind}
    {o : StepResult} (n : Nat) (done : ∀ r ∈ past, r.Done) (hn : n ≤ 2)
    (hevent : ctx₀.stepEvent = false)
    (hctx : ctx = ((stepComplete o.1 o.2).take n).foldl AsioRequestContext.exec ctx₀)
    (hret : Returning past.length client registered) {l : Label} {s' : Protocol}
    (hs : step { ctx, contextSet, client, registered,
                 callback := some (past.length, (stepComplete o.1 o.2).drop n),
                 steps := past ++ [{ kind, outcome := some o }] } l = some s') : Phase s' := by
  have hevent' : ctx.stepEvent = false := by
    rw [hctx]
    interval_cases n <;> simpa [stepComplete, AsioRequestContext.exec] using hevent
  cases l
  case client =>
    obtain ⟨client', registered', hret', rfl⟩ :=
      Returning.client_step hret (by simp [Protocol.current]) hs
    exact .recording n done hn hevent hctx hret'
  case callbackStep =>
    obtain rfl | rfl | rfl : n = 0 ∨ n = 1 ∨ n = 2 := by omega
    · simp [step, stepComplete, Protocol.perform] at hs
      rw [← hs, hctx]
      exact .recording 1 done (by omega) hevent rfl hret
    · simp [step, stepComplete, Protocol.perform] at hs
      rw [← hs, hctx]
      exact .recording 2 done (by omega) hevent rfl hret
    · simp [step, stepComplete, Protocol.perform] at hs
      rw [← hs, hctx]
      exact .recorded done rfl rfl hret
  all_goals
    cases hret <;> simp [step, Protocol.previousHandled, hevent'] at hs

theorem phase_step_failing {ctx : AsioRequestContext} {contextSet : Bool}
    {past : List StepRun} {kind : StepKind} {ec : ErrorCode}
    (done : ∀ r ∈ past, r.Done) (hevent : ctx.stepEvent = false) (hec : ec.failed = true)
    {l : Label} {s' : Protocol}
    (hs : step { ctx, contextSet, client := [.returnApi ec, .asyncWait],
                 steps := past ++ [{ kind, outcome := some (ec, 0) }] } l = some s') :
    Phase s' := by
  cases l <;> simp [step, afterApi, hec] at hs
  case client =>
    rw [← hs]
    exact .completing 0 done (by omega) hevent rfl

theorem phase_step_completing {ctx ctx₀ : AsioRequestContext} {contextSet : Bool}
    {past : List StepRun} {kind : StepKind} {ec : ErrorCode} (n : Nat)
    (done : ∀ r ∈ past, r.Done) (hn : n ≤ 3) (hevent : ctx₀.stepEvent = false)
    (hctx : ctx = ((.setState .error :: stepComplete ec 0).take n).foldl
      AsioRequestContext.exec ctx₀) {l : Label} {s' : Protocol}
    (hs : step { ctx, contextSet,
                 client := (.setState .error :: stepComplete ec 0).drop n ++ [.asyncWait],
                 steps := past ++ [{ kind, outcome := some (ec, 0) }] } l = some s') :
    Phase s' := by
  cases l
  case client =>
    obtain rfl | rfl | rfl | rfl : n = 0 ∨ n = 1 ∨ n = 2 ∨ n = 3 := by omega
    · simp [step, stepComplete, Protocol.perform] at hs
      rw [← hs, hctx]
      exact .completing 1 done (by omega) hevent rfl
    · simp [step, stepComplete, Protocol.perform] at hs
      rw [← hs, hctx]
      exact .completing 2 done (by omega) hevent rfl
    · simp [step, stepComplete, Protocol.perform] at hs
      rw [← hs, hctx]
      exact .completing 3 done (by omega) hevent rfl
    · simp [step, stepComplete, Protocol.perform, Protocol.current] at hs
      rw [← hs, hctx]
      exact .recorded done rfl rfl .beforeWait
  all_goals
    interval_cases n <;> simp [step, stepComplete] at hs

theorem phase_step_unanswered {ctx : AsioRequestContext} {contextSet : Bool}
    {past : List StepRun} {client : List Action} {registered : List Nat} {kind : StepKind}
    (done : ∀ r ∈ past, r.Done) (hevent : ctx.stepEvent = false)
    (hret : Returning past.length client registered) {l : Label} {s' : Protocol}
    (hs : step { ctx, contextSet, client, registered, steps := past ++ [{ kind }] } l = some s') :
    Phase s' := by
  cases l
  case client =>
    obtain ⟨client', registered', hret', rfl⟩ :=
      Returning.client_step hret (by simp [Protocol.current]) hs
    exact .unanswered done hevent hret'
  all_goals
    cases hret <;> simp [step, Protocol.previousHandled, hevent] at hs

theorem phase_step_recorded {ctx : AsioRequestContext} {contextSet : Bool}
    {past : List StepRun} {client : List Action} {registered : List Nat} {kind : StepKind}
    {o : StepResult} (done : ∀ r ∈ past, r.Done) (hevent : ctx.stepEvent = true)
    (hslot : (ctx.stepEc, ctx.stepLen) = o) (hret : Returning past.length client registered)
    {l : Label} {s' : Protocol}
    (hs : step { ctx, contextSet, client, registered,
                 steps := past ++ [{ kind, outcome := some o, recorded := true }] } l =
      some s') : Phase s' := by
  cases l
  case client =>
    obtain ⟨client', registered', hret', rfl⟩ :=
      Returning.client_step hret (by simp [Protocol.current]) hs
    exact .recorded done hevent hslot hret'
  case waitFires =>
    cases hret with
    | inCall | beforeWait => simp [step] at hs
    | waiting =>
        simp [step, hevent] at hs
        rw [← hs]
        exact .enabled done hevent hslot
  all_goals
    cases hret <;> simp [step, Protocol.previousHandled] at hs

theorem phase_step_enabled {ctx : AsioRequestContext} {contextSet : Bool}
    {past : List StepRun} {kind : StepKind} {o : StepResult}
    (done : ∀ r ∈ past, r.Done) (hslot : (ctx.stepEc, ctx.stepLen) = o)
    {l : Label} {s' : Protocol}
    (hs : step { ctx, contextSet, queued := [past.length],
                 steps := past ++ [{ kind, outcome := some o, recorded := true }] } l =
      some s') : Phase s' := by
  cases l <;> simp [step, Protocol.previousHandled, Protocol.runHandler, hslot] at hs
  case handler =>
    rw [← hs]
    refine .idle fun r hr => ?_
    rcases List.mem_append.mp hr with hr | hr
    · exact done r hr
    · rw [List.mem_singleton.mp hr]
      exact ⟨o, rfl, rfl, rfl⟩

theorem phase_step {s s' : Protocol} {l : Label} (h : Phase s) (hs : step s l = some s') :
    Phase s' := by
  cases h with
  | idle done => exact phase_step_idle done hs
  | preparing n done hn hctx => exact phase_step_preparing n done hn hctx hs
  | accepted done hstate hevent hret => exact phase_step_accepted done hstate hevent hret hs
  | recording n done hn hevent hctx hret =>
      exact phase_step_recording n done hn hevent hctx hret hs
  | failing done hevent hec => exact phase_step_failing done hevent hec hs
  | completing n done hn hevent hctx => exact phase_step_completing n done hn hevent hctx hs
  | unanswered done hevent hret => exact phase_step_unanswered done hevent hret hs
  | recorded done hevent hslot hret => exact phase_step_recorded done hevent hslot hret hs
  | enabled done hevent hslot => exact phase_step_enabled done hslot hs

theorem phase_of_run {ls : List Label} {s : Protocol} (hrun : system.run {} ls = some s) :
    Phase s :=
  System.run_preserves (fun _ _ _ => phase_step) (.idle (by simp)) hrun

/-- The handler of step `k` has been invoked once, with `a`. -/
def HandledWith (k : Nat) (a : ErrorCode × Option Nat) (s : Protocol) : Prop :=
  ∃ r, s.steps[k]? = some r ∧ r.handled = [a]

theorem within_of_enabled {ctx : AsioRequestContext} {contextSet : Bool}
    {past : List StepRun} {kind : StepKind} {o : StepResult}
    (hslot : (ctx.stepEc, ctx.stepLen) = o) :
    system.Within (HandledWith past.length (kind.handlerArgs o)) 1
      { ctx, contextSet, queued := [past.length],
        steps := past ++ [{ kind, outcome := some o, recorded := true }] } := by
  refine .later ⟨.handler, _, rfl⟩ fun l s' hs => .now ?_
  change step _ l = some s' at hs
  cases l <;> simp [step, Protocol.previousHandled, Protocol.runHandler, hslot] at hs
  case handler =>
    rw [← hs]
    exact ⟨_, List.getElem?_concat_length .., rfl⟩

/-- A recorded result reaches its handler: nothing but the rest of the
initiating function, the wait and the handler itself is left to happen. -/
theorem within_of_recorded {ctx : AsioRequestContext} {contextSet : Bool}
    {past : List StepRun} {client : List Action} {registered : List Nat} {kind : StepKind}
    {o : StepResult} (hevent : ctx.stepEvent = true) (hslot : (ctx.stepEc, ctx.stepLen) = o)
    (hret : Returning past.length client registered) :
    system.Within (HandledWith past.length (kind.handlerArgs o)) 4
      { ctx, contextSet, client, registered,
        steps := past ++ [{ kind, outcome := some o, recorded := true }] } := by
  have hwaiting : system.Within (HandledWith past.length (kind.handlerArgs o)) 2
      { ctx, contextSet, registered := [past.length],
        steps := past ++ [{ kind, outcome := some o, recorded := true }] } := by
    refine .later ⟨.waitFires, _, by simp [system, step, hevent]; rfl⟩ fun l s' hs => ?_
    change step _ l = some s' at hs
    cases l <;> simp [step, Protocol.previousHandled, hevent] at hs
    case waitFires => exact hs ▸ within_of_enabled hslot
  have hbeforeWait : system.Within (HandledWith past.length (kind.handlerArgs o)) 3
      { ctx, contextSet, client := [.asyncWait],
        steps := past ++ [{ kind, outcome := some o, recorded := true }] } := by
    refine .later ⟨.client, _, rfl⟩ fun l s' hs => ?_
    change step _ l = some s' at hs
    cases l <;> simp [step, Protocol.current] at hs
    case client => exact hs ▸ hwaiting
  cases hret with
  | inCall hec =>
      refine .later ⟨.client, _, rfl⟩ fun l s' hs => ?_
      change step _ l = some s' at hs
      cases l <;> simp [step, afterApi, hec] at hs
      case client => exact hs ▸ hbeforeWait
  | beforeWait => exact hbeforeWait.weaken (by omega)
  | waiting => exact hwaiting.weaken (by omega)

/-- What the handler of a step is invoked with: the error code of the result,
and for a query, a read or a write its length. -/
inductive Receives (ec : ErrorCode) (len : Nat) : StepKind → ErrorCode × Option Nat → Prop
  | send : Receives ec len .send (ec, none)
  | recieveResponse : Receives ec len .recieveResponse (ec, none)
  | queryDataAvailable : Receives ec len .queryDataAvailable (ec, some len)
  | readData : Receives ec len .readData (ec, some len)
  | writeData : Receives ec len .writeData (ec, some len)

theorem receives_handlerArgs (ec : ErrorCode) (len : Nat) (kind : StepKind) :
    Receives ec len kind (kind.handlerArgs (ec, len)) := by
  cases kind with
  | send => exact .send
  | recieveResponse => exact .recieveResponse
  | queryDataAvailable => exact .queryDataAvailable
  | readData => exact .readData
  | writeData => exact .writeData

structure StepRun.Kept (s : Protocol) (k : Nat) (r : StepRun) : Prop where
  enabled_after_recorded : k ∈ s.queued → r.recorded = true ∧ r.handled = []
  at_most_once : r.handled.length ≤ 1
  own_result : ∀ a ∈ r.handled, ∃ ec len, r.outcome = some (ec, len) ∧ r.recorded = true ∧
    Receives ec len r.kind a
  not_lost : r.recorded = true → r.handled = [] → ∃ ec len, r.outcome = some (ec, len) ∧
    s.ctx.stepEvent = true ∧ s.ctx.stepEc = ec ∧ s.ctx.stepLen = len ∧
    ∃ a, Receives ec len r.kind a ∧ system.Within (HandledWith k a) 4 s

theorem StepRun.Done.kept {s : Protocol} {k : Nat} {r : StepRun} (h : r.Done)
    (hk : k ∉ s.queued) : r.Kept s k := by
  obtain ⟨o, houtcome, hrecorded, hhandled⟩ := h
  refine ⟨fun hmem => absurd hmem hk, by simp [hhandled], ?_, by simp [hhandled]⟩
  intro a ha
  rw [hhandled, List.mem_singleton] at ha
  exact ⟨o.1, o.2, houtcome, hrecorded, ha ▸ receives_handlerArgs o.1 o.2 r.kind⟩

theorem StepRun.kept_of_not_recorded {s : Protocol} {k : Nat} {r : StepRun}
    (hk : k ∉ s.queued) (hrecorded : r.recorded = false) (hhandled : r.handled = []) :
    r.Kept s k :=
  ⟨fun hmem => absurd hmem hk, by simp [hhandled], by simp [hhandled],
    fun h => by simp [hrecorded] at h⟩

/-- A recorded result that is still in the slot reaches its handler. -/
theorem StepRun.kept_of_recorded {s : Protocol} {k : Nat} {kind : StepKind} {o : StepResult}
    (hevent : s.ctx.stepEvent = true) (hslot : (s.ctx.stepEc, s.ctx.stepLen) = o)
    (hwithin : system.Within (HandledWith k (kind.handlerArgs o)) 4 s) :
    StepRun.Kept s k { kind, outcome := some o, recorded := true } := by
  subst hslot
  refine ⟨fun _ => ⟨rfl, rfl⟩, Nat.zero_le 1, nofun, fun _ _ => ?_⟩
  exact ⟨_, _, rfl, hevent, rfl, rfl, _, receives_handlerArgs _ _ kind, hwithin⟩

theorem kept_concat {s : Protocol} {past : List StepRun} {r : StepRun}
    (hsteps : s.steps = past ++ [r]) (done : ∀ r ∈ past, r.Done)
    (hqueued : ∀ k ∈ s.queued, k = past.length) (hr : r.Kept s past.length) :
    ∀ (k : Nat) (r : StepRun), s.steps[k]? = some r → r.Kept s k := by
  intro k r' hk
  rw [hsteps] at hk
  obtain hlt | heq | hgt := Nat.lt_trichotomy k past.length
  · rw [List.getElem?_append_left hlt] at hk
    refine (done r' (List.mem_of_getElem? hk)).kept fun hmem => ?_
    have := hqueued k hmem
    omega
  · rw [heq, List.getElem?_concat_length, Option.some.injEq] at hk
    rw [heq, ← hk]
    exact hr
  · rw [List.getElem?_eq_none (by simp; omega)] at hk
    cases hk

theorem Phase.kept {s : Protocol} (h : Phase s) :
    ∀ (k : Nat) (r : StepRun), s.steps[k]? = some r → r.Kept s k := by
  cases h with
  | idle done =>
      intro k r hk
      exact (done r (List.mem_of_getElem? hk)).kept (by simp)
  | preparing n done | accepted done | recording n done | failing done | completing n done
  | unanswered done =>
      exact kept_concat rfl done (by simp)
        (StepRun.kept_of_not_recorded (by simp) rfl rfl)
  | recorded done hevent hslot hret =>
      exact kept_concat rfl done (by simp)
        (StepRun.kept_of_recorded hevent hslot (within_of_recorded hevent hslot hret))
  | enabled done hevent hslot =>
      exact kept_concat rfl done (by simp)
        (StepRun.kept_of_recorded hevent hslot ((within_of_enabled hslot).weaken (by omega)))

theorem Phase.assertsHold {s : Protocol} (h : Phase s) : s.assertsHold = true := by
  cases h <;> rfl

theorem Phase.inFlight_length {s : Protocol} (h : Phase s) : s.inFlight.length ≤ 1 := by
  cases h <;> simp

/-- The step protocol is safe on every interleaving: no assertion of the
callback fails, WinHTTP is never working on two calls, and every step keeps
its promises: its handler is enabled only after its own result was recorded,
runs at most once and receives exactly that result, and a recorded result
stays in the slot until its handler has run, which nothing can prevent. -/
theorem step_protocol {ls : List Label} {s : Protocol} (hrun : system.run {} ls = some s) :
    s.assertsHold = true ∧ s.inFlight.length ≤ 1 ∧
      ∀ (k : Nat) (r : StepRun), s.steps[k]? = some r → r.Kept s k :=
  have h := phase_of_run hrun
  ⟨h.assertsHold, h.inFlight_length, h.kept⟩

/-- The callback of an `async_send` runs before the call returns, that of the
query behind the registered wait, with a length of 5; the read issued by the
handler of the query fails at once. -/
def earlyCallback : List Label :=
  [.issue .send, .client, .client, .client, .client, .apiAccepts,
    .callback true (.sendRequestComplete 0), .callbackStep, .callbackStep, .callbackStep,
    .client, .client, .waitFires, .handler,
    .issue .queryDataAvailable, .client, .client, .client, .client, .apiAccepts,
    .client, .client, .callback true (.dataAvailable 4 5),
    .callbackStep, .callbackStep, .callbackStep, .waitFires, .handler,
    .issue .readData, .client, .client, .client, .client, .apiFails ⟨12002⟩,
    .client, .client, .client, .client, .client, .client, .waitFires, .handler]

theorem step_protocol_earlyCallback :
    ∃ s, system.run {} earlyCallback = some s ∧
      s.steps.map StepRun.handled =
        [[(.success, none)], [(.success, some 5)], [(⟨12002⟩, some 0)]] ∧
      s.assertsHold = true ∧ s.inFlight.length ≤ 1 ∧
      ∀ (k : Nat) (r : StepRun), s.steps[k]? = some r → r.Kept s k := by
  have hrun : system.run {} earlyCallback = some
      { ctx := { state := .error, stepEvent := true, stepEc := ⟨12002⟩ }
        contextSet := true
        steps := [⟨.send, some (.success, 0), true, [(.success, none)]⟩,
          ⟨.queryDataAvailable, some (.success, 5), true, [(.success, some 5)]⟩,
          ⟨.readData, some (⟨12002⟩, 0), true, [(⟨12002⟩, some 0)]⟩] } := by
    decide
  exact ⟨_, hrun, rfl, step_protocol hrun⟩

end Winasio.StepProtocol
