import Mathlib.Logic.Function.Basic
import Winasio.ControllerIsolation
import Winasio.QueuedReceive

/-!
The controller over a request queue: each receive it starts is an operation of
several calls, which HTTP.sys answers in any order with the requests that have
arrived.
-/

namespace Winasio.HttpServer

open Function (update)
open Winasio.Transition
open Winasio.QueueHandle
open Winasio.RequestQueue
open Winasio.QueuedReceive
open Winasio.Controller (HttpRequest Handlers RequestContext Outcome Operation Responds)
open Winasio.ControllerView (view)
open Winasio.ControllerIsolation (Stage ownResponse)

/-- How the code reads a buffer that a request was received into. -/
structure Format extends Layout where
  request : Bytes → HttpRequest
  requestId_request : ∀ bytes, sizeofHttpRequest ≤ bytes.length →
    (request bytes).requestId = toLayout.requestId bytes

def littleEndian (bytes : Bytes) : Nat := bytes.foldr (fun b n => b.toNat + 256 * n) 0

/-- `HTTP_REQUEST` with its pointers relative to the buffer. -/
def Format.x64 : Format where
  toLayout := .x64
  request bytes :=
    let field (offset size : Nat) : Nat := littleEndian ((bytes.drop offset).take size)
    let fullUrlLength := field 64 2
    let pFullUrl := field 72 8
    let pQueryString := field 96 8
    { requestId := Layout.x64.requestId bytes
      verb := if h : field 36 4 < Controller.httpVerbMaximum then ⟨field 36 4, h⟩ else ⟨0, by decide⟩
      cookedUrl :=
        { pFullUrl := (List.range (fullUrlLength / 2)).map fun i =>
            .ofNat (field (pFullUrl + 2 * i) 2)
          fullUrlLength := .ofNat fullUrlLength
          pQueryString :=
            if pQueryString = 0 then none else some ((pQueryString - pFullUrl) / 2) } }
  requestId_request _ _ := rfl

/-- The default of `async_receive_body`. -/
def bodySizeHint : Nat := 128

variable {Ω : Type}

/-- The controller, the queue, and the receive operations in progress by the
context whose buffer they fill. -/
structure State (Ω : Type) where
  controller : Controller.State Ω
  queue : Queue := []
  operations : Nat → Option World := fun _ => none
  aborted : Bool := false

def failure (ec : ErrorCode) : Option Failure :=
  if h : ec.failed = true then some ⟨ec, h⟩ else none

/-- What the handler of a receive is invoked with, and finds in its buffer. There
is no request in a buffer that is too short for one. -/
def outcome (fmt : Format) (op : Operation) (ec : ErrorCode) (buffer : Bytes) : Option Outcome :=
  match op.call with
  | .receive _ =>
      match failure ec with
      | some f => some (.receive (.error f))
      | none =>
          if fmt.sizeofHttpRequest ≤ buffer.length then some (.receive (.ok (fmt.request buffer)))
          else none
  | .receiveBody _ _ => some (.receiveBody (failure ec) buffer)
  | .send _ _ _ => none

namespace State

/-- The controller has started an operation on an empty buffer. -/
def launch (fmt : Format) (ndebug : Bool) (s : State Ω) (op : Operation) : State Ω :=
  match op.call with
  | .receive target =>
      { s with
        operations :=
          update s.operations target (some (ReceiveRequest.start fmt.toLayout ndebug {})) }
  | .receiveBody target id =>
      { s with
        operations := update s.operations target
          (some (ReceiveBody.start fmt.toLayout ndebug {} id bodySizeHint)) }
  | .send _ _ _ => s

/-- The operation on `target` is over. -/
def complete (fmt : Format) (handlers : Handlers Ω) (s : State Ω) (target : Nat) (ec : ErrorCode)
    (buffer : Bytes) : Option (State Ω) :=
  (s.controller.inKernel.find? (·.target = target)).bind fun op =>
    (outcome fmt op ec buffer).bind fun o =>
      (Controller.step handlers s.controller (.complete target o)).map fun controller =>
        { s with controller, operations := update s.operations target none }

/-- HTTP.sys answers the call of the operation on `target`. -/
def answer (fmt : Format) (ndebug : Bool) (handlers : Handlers Ω) (s : State Ω) (target : Nat)
    (r : Report) : Option (State Ω) :=
  (s.operations target).bind fun w =>
    match w.pending with
    | [] => none
    | (c, _) :: _ =>
        if s.queue.admits fmt.toLayout c r then
          let w' := w.answer fmt.toLayout r
          let s' : State Ω :=
            { s with
              queue := s.queue.after fmt.toLayout c r
              operations := update s.operations target (some w')
              aborted := !ndebug && !w'.assertsHold }
          match w'.handled with
          | [] => some s'
          | (ec, _) :: _ => s'.complete fmt handlers target ec w'.buffer.committed
        else none

end State

/-- A request arrives; a call of a receive is answered; a send is completed; the
controller runs a handler, which returns. -/
inductive Label (Ω : Type) where
  | arrive (a : Arrival)
  | answer (target : Nat) (r : Report)
  | sent (target : Nat) (error : Option Failure)
  | run (target : Nat) (captured : Ω)
  | finish

def step (fmt : Format) (ndebug : Bool) (handlers : Handlers Ω) (s : State Ω) (l : Label Ω) :
    Option (State Ω) :=
  if s.aborted then none
  else
    match l with
    | .arrive a => (s.queue.arrive fmt.toLayout a).map fun queue => { s with queue }
    | .answer target r => s.answer fmt ndebug handlers target r
    | .sent target error =>
        (Controller.step handlers s.controller (.complete target (.send error))).map
          fun controller => { s with controller }
    | .run target captured =>
        (Controller.step handlers s.controller (.run target captured)).map fun controller =>
          -- the handler starts its operations
          (controller.inKernel.drop s.controller.inKernel.length).foldl
            (State.launch fmt ndebug) { s with controller }
    | .finish =>
        (Controller.step handlers s.controller .finish).map fun controller =>
          { s with controller }

def system (fmt : Format) (ndebug : Bool) (handlers : Handlers Ω) : System (State Ω) (Label Ω) :=
  ⟨step fmt ndebug handlers⟩

def start (fmt : Format) (ndebug : Bool) : State Ω :=
  let s : State Ω := { controller := Controller.start }
  s.controller.inKernel.foldl (State.launch fmt ndebug) s

/-- How far the request in a context is: `owner` identifies what the context has
been given by the queue. -/
inductive Stands (fmt : Format) (ndebug : Bool) (q : Queue) :
    Option World → Option RequestId → Stage Ω → Prop
  | unused (context : Option RequestContext) : Stands fmt ndebug q none none (.unused context)
  | receiving {owner : Option RequestId} {w : World} : Asks fmt.toLayout ndebug q owner w →
      Stands fmt ndebug q (some w) owner .receiving
  | received {e : Entry} : e ∈ q → e.delivery = .delivered e.body →
      Stands fmt ndebug q none (some (e.id fmt.toLayout)) (.received (.ok (fmt.request e.header)))
  | failed (f : Failure) : Stands fmt ndebug q none none (.received (.error f))
  | refused (f : Failure) : Stands fmt ndebug q none none (.refused f)
  | readingBody {e : Entry} {w : World} {rest : Bytes} : e ∈ q → e.delivery = .delivered rest →
      ReceiveBody.Receiving (e.id fmt.toLayout) bodySizeHint [] e.body (w, rest) →
      w.pending ≠ [] →
      Stands fmt ndebug q (some w) (some (e.id fmt.toLayout))
        (.readingBody (fmt.request e.header))
  | bodyRead {e : Entry} {error : Option Failure} {data : Bytes} : e ∈ q →
      e.delivery ≠ .waiting → (error = none → data = e.body) →
      Stands fmt ndebug q none (some (e.id fmt.toLayout))
        (.bodyRead (fmt.request e.header) error data)
  | dropped {e : Entry} (f : Failure) (data : Bytes) : e ∈ q → e.delivery ≠ .waiting →
      Stands fmt ndebug q none (some (e.id fmt.toLayout)) (.dropped (fmt.request e.header) f data)
  | sending {e : Entry} (captured : Ω) (copy : Nat) : e ∈ q → e.delivery ≠ .waiting →
      Stands fmt ndebug q none (some (e.id fmt.toLayout))
        (.sending (fmt.request e.header) e.body captured copy)
  | sent {e : Entry} (captured : Ω) (copy : Nat) (error : Option Failure) : e ∈ q →
      e.delivery ≠ .waiting →
      Stands fmt ndebug q none (some (e.id fmt.toLayout))
        (.sent (fmt.request e.header) e.body captured copy error)
  | finished {e : Entry} (captured : Ω) (copy : Nat) (error : Option Failure) : e ∈ q →
      e.delivery ≠ .waiting →
      Stands fmt ndebug q none (some (e.id fmt.toLayout))
        (.finished (fmt.request e.header) e.body captured copy error)

/-- No two contexts have the same request, and each stands as its stage says. -/
structure Invariant (fmt : Format) (ndebug : Bool) (handlers : Handlers Ω) (s : State Ω)
    (owner : Nat → Option RequestId) : Prop where
  controller : ControllerIsolation.Invariant handlers s.controller
  queue : Sound fmt.toLayout s.queue
  owners : ∀ i j id, owner i = some id → owner j = some id → i = j
  stands : ∀ rq, ∃ stage : Stage Ω, view s.controller rq = stage.view handlers rq ∧
    Stands fmt ndebug s.queue (s.operations rq) (owner rq) stage

section Stands

variable {fmt : Format} {ndebug : Bool} {q q' : Queue} {op : Option World}
  {owner : Option RequestId} {stage : Stage Ω}

/-- What happens to other requests in the queue does not matter. -/
theorem Stands.frame (h : Stands fmt ndebug q op owner stage)
    (hq : ∀ e ∈ q, owner = some (e.id fmt.toLayout) → e.delivery ≠ .waiting → e ∈ q') :
    Stands fmt ndebug q' op owner stage := by
  cases h with
  | unused context => exact .unused context
  | receiving hw =>
      refine .receiving ?_
      cases hw with
      | any => exact .any
      | again hw he hdelivery hid =>
          exact .again hw (hq _ he rfl (by rw [hdelivery]; decide)) hdelivery hid
      | blind hw => exact .blind hw
      | aborted hpending hhandled => exact .aborted hpending hhandled
  | received he hdelivery => exact .received (hq _ he rfl (by rw [hdelivery]; simp)) hdelivery
  | failed f => exact .failed f
  | refused f => exact .refused f
  | readingBody he hdelivery hw hpending =>
      exact .readingBody (hq _ he rfl (by rw [hdelivery]; simp)) hdelivery hw hpending
  | bodyRead he hdelivery hdata => exact .bodyRead (hq _ he rfl hdelivery) hdelivery hdata
  | dropped f data he hdelivery => exact .dropped f data (hq _ he rfl hdelivery) hdelivery
  | sending captured copy he hdelivery =>
      exact .sending captured copy (hq _ he rfl hdelivery) hdelivery
  | sent captured copy error he hdelivery =>
      exact .sent captured copy error (hq _ he rfl hdelivery) hdelivery
  | finished captured copy error he hdelivery =>
      exact .finished captured copy error (hq _ he rfl hdelivery) hdelivery

/-- What a context has been given is in the queue, and not for others. -/
theorem Stands.owned (h : Stands fmt ndebug q op owner stage) {id : RequestId}
    (hid : owner = some id) : ∃ e ∈ q, e.id fmt.toLayout = id ∧ e.delivery ≠ .waiting := by
  cases h with
  | unused | failed | refused => cases hid
  | receiving hw =>
      cases hw with
      | any | blind | aborted => cases hid
      | again hw he hdelivery h =>
          cases hid
          exact ⟨_, he, rfl, by rw [hdelivery]; decide⟩
  | received he hdelivery =>
      cases hid
      exact ⟨_, he, rfl, by rw [hdelivery]; simp⟩
  | readingBody he hdelivery hw hpending =>
      cases hid
      exact ⟨_, he, rfl, by rw [hdelivery]; simp⟩
  | bodyRead he hdelivery | dropped _ _ he hdelivery | sending _ _ he hdelivery
  | sent _ _ _ he hdelivery | finished _ _ _ he hdelivery =>
      cases hid
      exact ⟨_, he, rfl, hdelivery⟩

end Stands

section Step

variable {fmt : Format} {ndebug : Bool} {handlers : Handlers Ω} {s s' : State Ω}
  {owner : Nat → Option RequestId} {target : Nat}

/-- One context goes on, and takes at most a request that waits. -/
theorem Invariant.advance (hs : Invariant fmt ndebug handlers s owner) {owner' : Option RequestId}
    {stage : Stage Ω} (hcontroller : ControllerIsolation.Invariant handlers s'.controller)
    (hqueue : Sound fmt.toLayout s'.queue)
    (hother : ∀ rq, rq ≠ target → view s'.controller rq = view s.controller rq ∧
      s'.operations rq = s.operations rq)
    (hkeeps : ∀ e ∈ s.queue, e.delivery ≠ .waiting → owner target ≠ some (e.id fmt.toLayout) →
      e ∈ s'.queue)
    (hstage : view s'.controller target = stage.view handlers target)
    (hstands : Stands fmt ndebug s'.queue (s'.operations target) owner' stage)
    (howner : ∀ id, owner' = some id → owner target = some id ∨
      ∃ e ∈ s.queue, e.id fmt.toLayout = id ∧ e.delivery = .waiting) :
    Invariant fmt ndebug handlers s' (update owner target owner') := by
  have hnew : ∀ j id, j ≠ target → owner' = some id → owner j ≠ some id := by
    intro j id hj hid howned
    rcases howner id hid with hold | ⟨e, he, rfl, hwaiting⟩
    · exact hj (hs.owners j target id howned hold)
    · obtain ⟨stage', -, hstands'⟩ := hs.stands j
      obtain ⟨e', he', hid', hdelivery⟩ := hstands'.owned howned
      rw [hs.queue.eq_of_id he' he hid'] at hdelivery
      exact hdelivery hwaiting
  refine ⟨hcontroller, hqueue, ?_, ?_⟩
  · intro i j id hi hj
    by_cases hit : i = target
    · by_cases hjt : j = target
      · rw [hit, hjt]
      · rw [hit, Function.update_self] at hi
        rw [Function.update_of_ne hjt] at hj
        exact absurd hj (hnew j id hjt hi)
    · rw [Function.update_of_ne hit] at hi
      by_cases hjt : j = target
      · rw [hjt, Function.update_self] at hj
        exact absurd hi (hnew i id hit hj)
      · rw [Function.update_of_ne hjt] at hj
        exact hs.owners i j id hi hj
  · intro rq
    by_cases hrq : rq = target
    · subst hrq
      rw [Function.update_self]
      exact ⟨stage, hstage, hstands⟩
    · obtain ⟨stage', hstage', hstands'⟩ := hs.stands rq
      obtain ⟨hview, hop⟩ := hother rq hrq
      rw [hview, hop, Function.update_of_ne hrq]
      refine ⟨stage', hstage', hstands'.frame fun e he howned hdelivery => ?_⟩
      exact hkeeps e he hdelivery fun h => hrq (hs.owners rq target _ howned h)

/-- The state after the answer, before a handler is told. -/
def answered (fmt : Format) (ndebug : Bool) (s : State Ω) (target : Nat) (w : World) (c : Call)
    (r : Report) : State Ω :=
  { s with
    queue := s.queue.after fmt.toLayout c r
    operations := update s.operations target (some (w.answer fmt.toLayout r))
    aborted := !ndebug && !(w.answer fmt.toLayout r).assertsHold }

theorem answer_eq_some {r : Report} (h : s.answer fmt ndebug handlers target r = some s') :
    ∃ w c h rest, s.operations target = some w ∧ w.pending = (c, h) :: rest ∧
      s.queue.admits fmt.toLayout c r = true ∧
      ((w.answer fmt.toLayout r).handled = [] ∧ s' = answered fmt ndebug s target w c r ∨
        ∃ ec len more, (w.answer fmt.toLayout r).handled = (ec, len) :: more ∧
          (answered fmt ndebug s target w c r).complete fmt handlers target ec
            (w.answer fmt.toLayout r).buffer.committed = some s') := by
  obtain ⟨w, hw, h⟩ := Option.bind_eq_some_iff.mp h
  rcases hpending : w.pending with _ | ⟨⟨c, h'⟩, rest⟩
  · simp only [hpending] at h
    cases h
  · simp only [hpending] at h
    obtain ⟨hadmits, h⟩ := Option.ite_none_right_eq_some.mp h
    refine ⟨w, c, h', rest, hw, hpending, hadmits, ?_⟩
    split at h
    · next hhandled => exact .inl ⟨hhandled, (Option.some.inj h).symm⟩
    · next ec len more hhandled => exact .inr ⟨ec, len, more, hhandled, h⟩

theorem complete_eq_some {ec : ErrorCode} {buffer : Bytes}
    (h : s.complete fmt handlers target ec buffer = some s') :
    ∃ op o controller, s.controller.inKernel.find? (·.target = target) = some op ∧
      outcome fmt op ec buffer = some o ∧
      Controller.step handlers s.controller (.complete target o) = some controller ∧
      s' = { s with controller, operations := update s.operations target none } := by
  obtain ⟨op, hop, h⟩ := Option.bind_eq_some_iff.mp h
  obtain ⟨o, ho, h⟩ := Option.bind_eq_some_iff.mp h
  obtain ⟨controller, hcontroller, rfl⟩ := Option.map_eq_some_iff.mp h
  exact ⟨op, o, controller, hop, ho, hcontroller, rfl⟩

theorem keeps_of_claims {q : Queue} {o : Option RequestId} {e e' : Entry}
    (hq : Sound fmt.toLayout q) (hclaims : Claims q fmt.toLayout o e) (he' : e' ∈ q)
    (hdelivery : e'.delivery ≠ .waiting) (hother : o ≠ some (e'.id fmt.toLayout)) :
    e'.id fmt.toLayout ≠ e.id fmt.toLayout := by
  intro hid
  obtain ⟨he, ⟨-, hwaiting⟩ | ⟨rfl, -⟩⟩ := hclaims
  · rw [hq.eq_of_id he' he hid] at hdelivery
    exact hdelivery hwaiting
  · exact hother (congrArg some hid.symm)

theorem failure_success : failure .success = none := rfl

theorem failure_of_ne_zero {code : UInt32} (h : code ≠ 0) :
    ∃ f : Failure, failure ⟨code⟩ = some f :=
  ⟨⟨⟨code⟩, ErrorCode.failed_iff.mpr h⟩, dif_pos (ErrorCode.failed_iff.mpr h)⟩

/-- The receive of `target` has been answered, and asks on. -/
theorem Invariant.waits (hs : Invariant fmt ndebug handlers s owner) {stage : Stage Ω} {w : World}
    {c : Call} {r : Report} {o : Option RequestId}
    (hstage : view s.controller target = stage.view handlers target)
    (hkeeps : ∀ e ∈ s.queue, e.delivery ≠ .waiting → owner target ≠ some (e.id fmt.toLayout) →
      e ∈ s.queue.after fmt.toLayout c r)
    (hstands : Stands fmt ndebug (s.queue.after fmt.toLayout c r)
      (some (w.answer fmt.toLayout r)) o stage)
    (howner : ∀ id, o = some id → owner target = some id ∨
      ∃ e ∈ s.queue, e.id fmt.toLayout = id ∧ e.delivery = .waiting) :
    Invariant fmt ndebug handlers (answered fmt ndebug s target w c r) (update owner target o) := by
  refine hs.advance hs.controller (hs.queue.after c r) ?_ hkeeps hstage ?_ howner
  · intro rq hrq
    exact ⟨rfl, Function.update_of_ne hrq _ _⟩
  · dsimp only [answered]
    rw [Function.update_self]
    exact hstands

/-- The receive of `target` is over. -/
theorem Invariant.completed (hs : Invariant fmt ndebug handlers s owner) {stage : Stage Ω}
    {op : Operation} {w : World} {c : Call} {r : Report} {ec : ErrorCode} {buffer : Bytes}
    {o : Option RequestId} (hstage : view s.controller target = stage.view handlers target)
    (hop : (stage.view handlers target).inKernel.head? = some op)
    (hkeeps : ∀ e ∈ s.queue, e.delivery ≠ .waiting → owner target ≠ some (e.id fmt.toLayout) →
      e ∈ s.queue.after fmt.toLayout c r)
    (hstands : ∀ x, outcome fmt op ec buffer = some x →
      Stands fmt ndebug (s.queue.after fmt.toLayout c r) none o (stage.completed x))
    (howner : ∀ id, o = some id → owner target = some id ∨
      ∃ e ∈ s.queue, e.id fmt.toLayout = id ∧ e.delivery = .waiting)
    (hs' : (answered fmt ndebug s target w c r).complete fmt handlers target ec buffer = some s') :
    Invariant fmt ndebug handlers s' (update owner target o) := by
  obtain ⟨op', x, controller, hop', hx, hcontroller, rfl⟩ := complete_eq_some hs'
  have hsame : op' = op := by
    rw [ControllerView.head?_inKernel] at hop'
    rw [← hstage] at hop
    exact Option.some.inj (hop'.symm.trans hop)
  obtain ⟨hself, hother⟩ := ControllerIsolation.view_complete hstage hcontroller
  refine hs.advance (hs.controller.step hcontroller) (hs.queue.after c r) ?_ hkeeps hself ?_ howner
  · intro rq hrq
    refine ⟨hother rq hrq, ?_⟩
    dsimp only [answered]
    rw [Function.update_of_ne hrq, Function.update_of_ne hrq]
  · dsimp only
    rw [Function.update_self]
    exact hstands x (hsame ▸ hx)

/-- HTTP.sys has given `target` a request. -/
theorem Invariant.delivered (hs : Invariant fmt ndebug handlers s owner) {w : World} {c : Call}
    {r : Report} {e : Entry}
    (hstage : view s.controller target = (Stage.receiving (Ω := Ω)).view handlers target)
    (hclaims : Claims s.queue fmt.toLayout (owner target) e)
    (hq : s.queue.after fmt.toLayout c r =
      s.queue.update fmt.toLayout (e.id fmt.toLayout) fun e => .delivered e.body)
    (hs' : (answered fmt ndebug s target w c r).complete fmt handlers target .success e.header =
      some s') :
    Invariant fmt ndebug handlers s' (update owner target (some (e.id fmt.toLayout))) := by
  refine hs.completed hstage rfl ?_ ?_ ?_ hs'
  · intro e' he' hdelivery howned
    rw [hq]
    exact mem_update_of_ne he' (keeps_of_claims hs.queue hclaims he' hdelivery howned)
  · intro x hx
    simp only [outcome, failure_success, hs.queue.le_length hclaims.1, if_true] at hx
    cases hx
    rw [hq]
    exact .received (e := { e with delivery := .delivered e.body })
      (mem_update_self hclaims.1 rfl) rfl
  · intro id hid
    cases hid
    obtain ⟨he, ⟨-, hwaiting⟩ | ⟨howned, -⟩⟩ := hclaims
    · exact .inr ⟨e, he, rfl, hwaiting⟩
    · exact .inl howned

/-- HTTP.sys has told `target` the size of a request. -/
theorem Invariant.announced (hs : Invariant fmt ndebug handlers s owner) {w : World} {c : Call}
    {r : Report} {e : Entry} {o : Option RequestId}
    (hstage : view s.controller target = (Stage.receiving (Ω := Ω)).view handlers target)
    (hclaims : Claims s.queue fmt.toLayout none e)
    (hq : s.queue.after fmt.toLayout c r =
      s.queue.update fmt.toLayout (e.id fmt.toLayout) fun _ => .announced)
    (hasks : Asks fmt.toLayout ndebug (s.queue.after fmt.toLayout c r) o
      (w.answer fmt.toLayout r))
    (ho : o = some (e.id fmt.toLayout) ∨ o = none) :
    Invariant fmt ndebug handlers (answered fmt ndebug s target w c r)
      (update owner target o) := by
  refine hs.waits hstage ?_ (.receiving hasks) ?_
  · intro e' he' hdelivery howned
    rw [hq]
    exact mem_update_of_ne he' (keeps_of_claims hs.queue hclaims he' hdelivery (by simp))
  · intro id hid
    obtain ⟨he, ⟨-, hwaiting⟩ | ⟨hfalse, -⟩⟩ := hclaims
    · rcases ho with rfl | rfl
      · cases hid
        exact .inr ⟨e, he, rfl, hwaiting⟩
      · cases hid
    · cases hfalse

theorem Invariant.answerHeader (hs : Invariant fmt ndebug handlers s owner) {w : World} {c : Call}
    {h : Handler} {rest : List (Call × Handler)} {r : Report}
    (hstage : view s.controller target = (Stage.receiving (Ω := Ω)).view handlers target)
    (hasks : Asks fmt.toLayout ndebug s.queue (owner target) w)
    (hpending : w.pending = (c, h) :: rest) (hr : s.queue.admits fmt.toLayout c r = true)
    (hs' : (w.answer fmt.toLayout r).handled = [] ∧ s' = answered fmt ndebug s target w c r ∨
        ∃ ec len more, (w.answer fmt.toLayout r).handled = (ec, len) :: more ∧
          (answered fmt ndebug s target w c r).complete fmt handlers target ec
            (w.answer fmt.toLayout r).buffer.committed = some s') :
    ∃ owner', Invariant fmt ndebug handlers s' owner' := by
  have hanswered := headerAnswered hs.queue hasks hpending hr
  generalize hq : s.queue.after fmt.toLayout c r = q' at hanswered
  generalize hw : w.answer fmt.toLayout r = w' at hanswered hs'
  cases hanswered with
  | delivered len hclaims hcode hhandled hcommitted _ =>
      obtain ⟨hnil, -⟩ | ⟨ec, len', more, hhandled', hs'⟩ := hs'
      · rw [hhandled] at hnil
        cases hnil
      · rw [hhandled] at hhandled'
        cases hhandled'
        exact ⟨_, hs.delivered hstage hclaims hq (hcommitted ▸ hs')⟩
  | failed len hzero hmore hhandled =>
      obtain ⟨hnil, -⟩ | ⟨ec, len', more, hhandled', hs'⟩ := hs'
      · rw [hhandled] at hnil
        cases hnil
      · rw [hhandled] at hhandled'
        cases hhandled'
        obtain ⟨f, hf⟩ := failure_of_ne_zero hzero
        refine ⟨_, hs.completed (o := none) hstage rfl (fun e he _ _ => hq.symm ▸ he) ?_
          (fun id hid => by cases hid) hs'⟩
        intro x hx
        simp only [outcome, hf] at hx
        cases hx
        exact .failed f
  | announced hclaims hnone hcode ho hasks' =>
      obtain ⟨-, rfl⟩ | ⟨ec, len', more, hhandled', hs'⟩ := hs'
      · exact ⟨_, hs.announced hstage hclaims hq (hq.symm ▸ hw.symm ▸ hasks')
          (ho.imp And.left And.left)⟩
      · rw [hasks'.handled] at hhandled'
        cases hhandled'
  | aborted hzero hqueued hpending' hhandled =>
      obtain ⟨-, rfl⟩ | ⟨ec, len', more, hhandled', hs'⟩ := hs'
      · refine ⟨_, hs.waits (o := none) hstage (fun e he _ _ => hq.symm ▸ he) ?_
          (fun id hid => by cases hid)⟩
        rw [hq, hw]
        exact .receiving (.aborted hpending' hhandled)
      · rw [hhandled] at hhandled'
        cases hhandled'

theorem Invariant.answerBody (hs : Invariant fmt ndebug handlers s owner) {w : World} {c : Call}
    {h : Handler} {rest : List (Call × Handler)} {r : Report} {e : Entry} {remaining : Bytes}
    (hstage : view s.controller target =
      (Stage.readingBody (fmt.request e.header)).view handlers target)
    (he : e ∈ s.queue) (howned : owner target = some (e.id fmt.toLayout))
    (hdelivery : e.delivery = .delivered remaining)
    (hw : ReceiveBody.Receiving (e.id fmt.toLayout) bodySizeHint [] e.body (w, remaining))
    (hpending : w.pending = (c, h) :: rest) (hr : s.queue.admits fmt.toLayout c r = true)
    (hs' : (w.answer fmt.toLayout r).handled = [] ∧ s' = answered fmt ndebug s target w c r ∨
        ∃ ec len more, (w.answer fmt.toLayout r).handled = (ec, len) :: more ∧
          (answered fmt ndebug s target w c r).complete fmt handlers target ec
            (w.answer fmt.toLayout r).buffer.committed = some s') :
    Invariant fmt ndebug handlers s' owner := by
  obtain ⟨hq, hw', -⟩ :=
    bodyAnswered (by decide) (by decide) hs.queue he hdelivery hw hpending hr
  have hkeeps : ∀ e' ∈ s.queue, e'.delivery ≠ .waiting →
      owner target ≠ some (e'.id fmt.toLayout) → e' ∈ s.queue.after fmt.toLayout c r := by
    intro e' he' _ hother
    rw [hq]
    exact mem_update_of_ne he' fun hid => hother (howned.trans (congrArg some hid.symm))
  let e' : Entry := { e with delivery := .delivered (ReceiveBody.after remaining r) }
  have hmem : e' ∈ s.queue.after fmt.toLayout c r := by
    rw [hq]
    exact mem_update_self he rfl
  have hdelivered : e'.delivery ≠ .waiting := by simp [e']
  have howner : ∀ id, some (e.id fmt.toLayout) = some id → owner target = some id ∨
      ∃ e ∈ s.queue, e.id fmt.toLayout = id ∧ e.delivery = .waiting :=
    fun id hid => .inl (howned.trans hid)
  have hsame : update owner target (some (e.id fmt.toLayout)) = owner := by
    rw [← howned, Function.update_eq_self]
  rw [← hsame]
  rcases receiving_cases hw' with ⟨hpending', hhandled⟩ | ⟨len, hpending', hhandled, hcommitted⟩ |
    ⟨c', r', len, hpending', -, hhandled, hcode, -⟩
  · obtain ⟨-, rfl⟩ | ⟨ec, len', more, hhandled', hs'⟩ := hs'
    · exact hs.waits hstage hkeeps (.readingBody (e := e') hmem rfl hw' hpending') howner
    · rw [hhandled] at hhandled'
      cases hhandled'
  · obtain ⟨hnil, -⟩ | ⟨ec, len', more, hhandled', hs'⟩ := hs'
    · rw [hhandled] at hnil
      cases hnil
    · rw [hhandled] at hhandled'
      cases hhandled'
      refine hs.completed hstage rfl hkeeps ?_ howner hs'
      intro x hx
      rw [hcommitted] at hx
      simp only [outcome, failure_success] at hx
      cases hx
      exact .bodyRead (e := e') hmem hdelivered fun _ => rfl
  · obtain ⟨hnil, -⟩ | ⟨ec, len', more, hhandled', hs'⟩ := hs'
    · rw [hhandled] at hnil
      cases hnil
    · rw [hhandled] at hhandled'
      cases hhandled'
      obtain ⟨f, hf⟩ := failure_of_ne_zero hcode
      refine hs.completed hstage rfl hkeeps ?_ howner hs'
      intro x hx
      simp only [outcome, hf] at hx
      cases hx
      exact .bodyRead (e := e') hmem hdelivered fun h => by cases h

theorem Invariant.answer (hs : Invariant fmt ndebug handlers s owner) {r : Report}
    (h : s.answer fmt ndebug handlers target r = some s') :
    ∃ owner', Invariant fmt ndebug handlers s' owner' := by
  obtain ⟨w, c, h', rest, hw, hpending, hr, hs'⟩ := answer_eq_some h
  obtain ⟨stage, hstage, hstands⟩ := hs.stands target
  rw [hw] at hstands
  generalize howned : owner target = o at hstands
  cases hstands with
  | receiving hasks => exact hs.answerHeader hstage (howned ▸ hasks) hpending hr hs'
  | readingBody he hdelivery hreceiving hwaits =>
      exact ⟨owner, hs.answerBody hstage he howned hdelivery hreceiving hpending hr hs'⟩

theorem Invariant.sent (hs : Invariant fmt ndebug handlers s owner) {error : Option Failure}
    {controller : Controller.State Ω}
    (h : Controller.step handlers s.controller (.complete target (.send error)) =
      some controller) :
    Invariant fmt ndebug handlers { s with controller } (update owner target (owner target)) := by
  obtain ⟨stage, hstage, hstands⟩ := hs.stands target
  obtain ⟨hself, hother⟩ := ControllerIsolation.view_complete hstage h
  refine hs.advance (hs.controller.step h) hs.queue (fun rq hrq => ⟨hother rq hrq, rfl⟩)
    (fun e he _ _ => he) hself ?_ (fun id hid => .inl hid)
  obtain ⟨op, hop, hadmits, -⟩ := ControllerView.step_complete h
  rw [ControllerView.head?_inKernel, hstage] at hop
  dsimp only
  generalize owner target = o at hstands ⊢
  generalize s.operations target = w at hstands ⊢
  cases hstands with
  | sending captured copy he hdelivery => exact .sent captured copy error he hdelivery
  | receiving _ | readingBody _ _ _ _ =>
      cases hop
      cases hadmits
  | _ => cases hop

/-- The operations a handler starts, by the stage of its request. -/
def launches (handlers : Handlers Ω) (target n : Nat) (captured : Ω) : Stage Ω → List Operation
  | .received (.error _) => [⟨.receive n, .receive n⟩]
  | .received (.ok request) =>
      [⟨.receive n, .receive n⟩, ⟨.receiveBody target, .receiveBody target request.requestId⟩]
  | .bodyRead request none data =>
      [ControllerIsolation.sendOperation handlers target request data captured n]
  | _ => []

theorem inKernel_of_ran {captured : Ω} {c c' : Controller.State Ω} {stage : Stage Ω}
    (hstage : view c target = (stage.view handlers target).popped)
    (h : ControllerIsolation.Ran handlers captured target c stage c') :
    c'.inKernel =
      c.inKernel ++ launches handlers target c.contexts.length captured stage := by
  cases h with
  | refused f => rfl
  | header request hbody =>
      obtain ⟨request', hrequest, rfl⟩ := Option.map_eq_some_iff.mp hbody
      have hlt := ControllerView.lt_length_of_context (congrArg ControllerView.View.context hstage)
      have hcontext := congrArg ControllerView.View.context
        ((ControllerView.view_receiveNextRequest_other rfl (Nat.ne_of_lt hlt)).trans hstage)
      simp only [Controller.State.getRequest] at hrequest
      rw [show c.receiveNextRequest.contexts[target]? = _ from hcontext] at hrequest
      cases hrequest
      simp [Controller.State.receiveNextRequest, launches]
  | dropped request f data => exact (List.append_nil _).symm
  | dispatch request data => rfl
  | finished request data captured' copy error => exact (List.append_nil _).symm

/-- The context that a handler makes next has had nothing to do with requests. -/
theorem Invariant.fresh (hs : Invariant fmt ndebug handlers s owner) :
    s.operations s.controller.contexts.length = none ∧
      owner s.controller.contexts.length = none := by
  obtain ⟨stage, hstage, hstands⟩ := hs.stands s.controller.contexts.length
  have hcontext : s.controller.contexts[s.controller.contexts.length]? =
      (stage.view handlers _).context := congrArg ControllerView.View.context hstage
  rw [List.getElem?_eq_none (Nat.le_refl _)] at hcontext
  generalize owner s.controller.contexts.length = o at hstands ⊢
  generalize s.operations s.controller.contexts.length = w at hstands ⊢
  cases hstands with
  | unused context => exact ⟨rfl, rfl⟩
  | _ => cases hcontext

theorem Invariant.run (hs : Invariant fmt ndebug handlers s owner) {captured : Ω}
    {controller : Controller.State Ω}
    (h : Controller.step handlers s.controller (.run target captured) = some controller) :
    Invariant fmt ndebug handlers
      ((controller.inKernel.drop s.controller.inKernel.length).foldl (State.launch fmt ndebug)
        { s with controller }) owner := by
  obtain ⟨stage, hstage, hstands⟩ := hs.stands target
  obtain ⟨hself, hopens, hother, -⟩ := ControllerIsolation.view_run hs.controller hstage h
  obtain ⟨op, o, -, hop, hqueued, hrequest, hran⟩ := ControllerIsolation.ran_of_step hstage h
  obtain ⟨hfresh, hunowned⟩ := hs.fresh
  have hpopped := (ControllerView.view_pop_self hop hrequest).trans
    (congrArg ControllerView.View.popped hstage)
  have hlaunches : controller.inKernel = s.controller.inKernel ++
      launches handlers target s.controller.contexts.length captured stage :=
    inKernel_of_ran (c := ControllerView.pop s.controller target op o) hpopped hran
  have hne : s.controller.contexts.length ≠ target := by
    rintro rfl
    rw [← hstage, hs.controller.fresh] at hqueued
    cases hqueued
  have hnext : ∀ operations : Nat → Option World,
      (∀ rq, rq ≠ target → rq ≠ s.controller.contexts.length →
        operations rq = s.operations rq) →
      Stands fmt ndebug s.queue (operations target) (owner target)
        (stage.ran captured s.controller.contexts.length) →
      Stands fmt ndebug s.queue (operations s.controller.contexts.length) none
        (stage.opens handlers captured) →
      Invariant fmt ndebug handlers { s with controller, operations } owner := by
    intro operations hoperations htarget hfreshStands
    refine ⟨hs.controller.step h, hs.queue, hs.owners, fun rq => ?_⟩
    by_cases hrq : rq = target
    · subst hrq
      exact ⟨_, hself, htarget⟩
    · by_cases hlen : rq = s.controller.contexts.length
      · subst hlen
        exact ⟨_, hopens, by rw [hunowned]; exact hfreshStands⟩
      · dsimp only
        rw [hother rq hrq hlen, hoperations rq hrq hlen]
        exact hs.stands rq
  rw [hlaunches, List.drop_left]
  generalize howned : owner target = owned at hstands hnext
  generalize hworld : s.operations target = w at hstands
  cases hstands with
  | @received e he hdelivery =>
      refine hnext (update (update s.operations s.controller.contexts.length
          (some (ReceiveRequest.start fmt.toLayout ndebug {}))) target
        (some (ReceiveBody.start fmt.toLayout ndebug {} (fmt.request e.header).requestId
          bodySizeHint))) ?_ ?_ ?_
      · intro rq hrq hlen
        rw [Function.update_of_ne hrq, Function.update_of_ne hlen]
      · rw [Function.update_self, fmt.requestId_request _ (hs.queue.le_length he)]
        exact .readingBody he hdelivery
          (.waiting ⟨rfl, rfl, by simp, rfl, rfl⟩ (by decide) (by decide))
          (List.cons_ne_nil _ _)
      · rw [Function.update_of_ne hne, Function.update_self]
        exact .receiving .any
  | failed f =>
      refine hnext (update s.operations s.controller.contexts.length
        (some (ReceiveRequest.start fmt.toLayout ndebug {}))) ?_ ?_ ?_
      · intro rq hrq hlen
        exact Function.update_of_ne hlen _ _
      · rw [Function.update_of_ne hne.symm, hworld]
        exact .refused f
      · rw [Function.update_self]
        exact .receiving .any
  | @bodyRead e error data he hdelivery hdata =>
      cases error with
      | some f =>
          refine hnext s.operations (fun _ _ _ => rfl) ?_ ?_
          · rw [hworld]
            exact .dropped f data he hdelivery
          · rw [hfresh]
            exact .unused none
      | none =>
          refine hnext s.operations (fun _ _ _ => rfl) ?_ ?_
          · rw [hworld, hdata rfl]
            exact .sending captured _ he hdelivery
          · rw [hfresh]
            exact .unused _
  | sent captured' copy error he hdelivery =>
      refine hnext s.operations (fun _ _ _ => rfl) ?_ ?_
      · rw [hworld]
        exact .finished captured' copy error he hdelivery
      · rw [hfresh]
        exact .unused none
  | _ => cases hqueued

theorem invariant_of_step (hs : Invariant fmt ndebug handlers s owner) {l : Label Ω}
    (h : step fmt ndebug handlers s l = some s') :
    ∃ owner', Invariant fmt ndebug handlers s' owner' := by
  obtain ⟨-, h⟩ := Option.ite_none_left_eq_some.mp h
  cases l with
  | arrive a =>
      obtain ⟨q, hq, rfl⟩ := Option.map_eq_some_iff.mp h
      obtain ⟨hsound, rfl⟩ := hs.queue.arrive hq
      refine ⟨owner, hs.controller, hsound, hs.owners, fun rq => ?_⟩
      obtain ⟨stage, hstage, hstands⟩ := hs.stands rq
      exact ⟨stage, hstage, hstands.frame fun e he _ _ => List.mem_append_left _ he⟩
  | answer target r => exact hs.answer h
  | sent target error =>
      obtain ⟨controller, hcontroller, rfl⟩ := Option.map_eq_some_iff.mp h
      exact ⟨_, hs.sent hcontroller⟩
  | run target captured =>
      obtain ⟨controller, hcontroller, rfl⟩ := Option.map_eq_some_iff.mp h
      exact ⟨owner, hs.run hcontroller⟩
  | finish =>
      obtain ⟨controller, hcontroller, rfl⟩ := Option.map_eq_some_iff.mp h
      obtain ⟨-, rfl⟩ := ControllerView.step_finish hcontroller
      exact ⟨owner, hs.controller.step hcontroller, hs.queue, hs.owners, hs.stands⟩

theorem invariant_start (fmt : Format) (ndebug : Bool) (handlers : Handlers Ω) :
    Invariant fmt ndebug handlers (start fmt ndebug) fun _ => none := by
  refine ⟨ControllerIsolation.invariant_start handlers, ⟨List.nodup_nil, fun e he => ?_⟩,
    by simp, fun rq => ?_⟩
  · cases he
  have hempty : view ({} : Controller.State Ω) rq = (Stage.unused none).view handlers rq := rfl
  by_cases hrq : rq = 0
  · subst hrq
    exact ⟨.receiving, ControllerView.view_receiveNextRequest_self rfl, .receiving .any⟩
  · refine ⟨.unused none,
      (ControllerView.view_receiveNextRequest_other rfl hrq).trans hempty, ?_⟩
    change Stands fmt ndebug [] (update (fun _ => none) 0 _ rq) none _
    rw [Function.update_of_ne hrq]
    exact .unused none

theorem complete_enabled {ec : ErrorCode} {buffer : Bytes} {op : Operation} {o : Outcome}
    (hop : (view s.controller target).inKernel.head? = some op)
    (ho : outcome fmt op ec buffer = some o) (hadmits : op.call.admits o = true) :
    ∃ s', s.complete fmt handlers target ec buffer = some s' := by
  rw [← ControllerView.head?_inKernel] at hop
  have hstep : Controller.step handlers s.controller (.complete target o) =
      some (ControllerView.completed s.controller target op o) := by
    simp only [Controller.step, hop, hadmits, if_true]
    rfl
  rw [State.complete, hop, Option.bind_some, ho, Option.bind_some, hstep]
  exact ⟨_, rfl⟩

theorem answer_enabled_of {w : World} {c : Call} {h : Handler} {rest : List (Call × Handler)}
    {r : Report} (hw : s.operations target = some w) (hpending : w.pending = (c, h) :: rest)
    (hr : s.queue.admits fmt.toLayout c r = true)
    (hcomplete : ∀ ec len more, (w.answer fmt.toLayout r).handled = (ec, len) :: more →
      ∃ s', (answered fmt ndebug s target w c r).complete fmt handlers target ec
        (w.answer fmt.toLayout r).buffer.committed = some s') :
    ∃ s', s.answer fmt ndebug handlers target r = some s' := by
  rw [State.answer, hw, Option.bind_some]
  simp only [hpending, hr, if_true]
  rcases hhandled : (w.answer fmt.toLayout r).handled with _ | ⟨⟨ec, len⟩, more⟩
  · exact ⟨_, rfl⟩
  · exact hcomplete ec len more hhandled

/-- A receive that is over has the whole of what it asked for, or an error. -/
theorem filled_or_failed (hs : Invariant fmt ndebug handlers s owner) {w : World} {c : Call}
    {h : Handler} {rest : List (Call × Handler)} {r : Report}
    (hw : s.operations target = some w) (hpending : w.pending = (c, h) :: rest)
    (hr : s.queue.admits fmt.toLayout c r = true) {ec : ErrorCode} {len : Nat}
    {more : List (ErrorCode × Nat)}
    (hhandled : (w.answer fmt.toLayout r).handled = (ec, len) :: more) :
    (ec = .success ∧ ∃ e ∈ s.queue,
        Filled fmt.toLayout c e (w.answer fmt.toLayout r).buffer.committed) ∨
      ec.failed = true := by
  obtain ⟨stage, hstage, hstands⟩ := hs.stands target
  rw [hw] at hstands
  generalize owner target = o at hstands
  cases hstands with
  | receiving hasks =>
      have hapi := hasks.api hpending
      have hanswered := headerAnswered hs.queue hasks hpending hr
      generalize s.queue.after fmt.toLayout c r = q' at hanswered
      cases hanswered with
      | delivered len' hclaims hcode hhandled' hcommitted _ =>
          rw [hhandled'] at hhandled
          cases hhandled
          refine .inl ⟨rfl, _, hclaims.1, ?_⟩
          rw [Filled, hapi]
          exact ⟨hclaims.isDelivered, hcommitted⟩
      | failed len' hzero hmore hhandled' =>
          rw [hhandled'] at hhandled
          cases hhandled
          exact .inr (ErrorCode.failed_iff.mpr hzero)
      | announced hclaims hnone hcode howner hasks' =>
          rw [hasks'.handled] at hhandled
          cases hhandled
      | aborted hzero hqueued hpending' hhandled' =>
          rw [hhandled'] at hhandled
          cases hhandled
  | readingBody he hdelivery hreceiving hwaits =>
      obtain ⟨hapi, hid⟩ := call_of_receiving hreceiving hpending
      obtain ⟨-, hreceiving', -⟩ :=
        bodyAnswered (by decide) (by decide) hs.queue he hdelivery hreceiving hpending hr
      rcases receiving_cases hreceiving' with ⟨-, hnil⟩ | ⟨len', -, hhandled', hcommitted⟩ |
        ⟨c', r', len', -, -, hhandled', hzero, -⟩
      · rw [hnil] at hhandled
        cases hhandled
      · rw [hhandled'] at hhandled
        cases hhandled
        refine .inl ⟨rfl, _, he, ?_⟩
        rw [Filled, hapi]
        exact ⟨hid.symm, hcommitted⟩
      · rw [hhandled'] at hhandled
        cases hhandled
        exact .inr (ErrorCode.failed_iff.mpr hzero)

/-- Whatever HTTP.sys answers, the handler finds a request in its buffer after a
success. -/
theorem answer_enabled (hs : Invariant fmt ndebug handlers s owner) {w : World} {c : Call}
    {h : Handler} {rest : List (Call × Handler)} {r : Report}
    (hw : s.operations target = some w) (hpending : w.pending = (c, h) :: rest)
    (hr : s.queue.admits fmt.toLayout c r = true) :
    ∃ s', s.answer fmt ndebug handlers target r = some s' := by
  refine answer_enabled_of hw hpending hr fun ec len more hhandled => ?_
  have htold := filled_or_failed hs hw hpending hr hhandled
  obtain ⟨stage, hstage, hstands⟩ := hs.stands target
  rw [hw] at hstands
  generalize owner target = o at hstands
  have hop := congrArg (fun v => v.inKernel.head?) hstage
  cases hstands with
  | receiving hasks =>
      rcases htold with ⟨rfl, e, he, hfilled⟩ | hfailed
      · rw [Filled, hasks.api hpending] at hfilled
        refine complete_enabled hop (o := .receive (.ok (fmt.request e.header))) ?_ rfl
        rw [hfilled.2]
        simp only [outcome, failure_success, hs.queue.le_length he, if_true]
      · refine complete_enabled hop (o := .receive (.error ⟨ec, hfailed⟩)) ?_ rfl
        simp only [outcome, failure, hfailed, dif_pos]
  | readingBody he hdelivery hreceiving hwaits => exact complete_enabled hop rfl rfl

end Step

/-- Every response was made from the header and the whole body of the request it
answers, and answers no other one; a request is answered once. Whatever HTTP.sys
answers to a receive, the handler that is told of success finds in its buffer
all that was asked for. -/
structure Serves (fmt : Format) (ndebug : Bool) (handlers : Handlers Ω) (s : State Ω) : Prop where
  own : ∀ send ∈ s.controller.sends, ∃ e ∈ s.queue, send.id = e.id fmt.toLayout ∧
    ∃ d ∈ s.controller.dispatched, d.request = send.request ∧ d.body = e.body ∧
      Responds handlers d.captured (fmt.request e.header) e.body send.response
  once : (s.controller.sends.map (·.id)).Nodup
  sees : ∀ d ∈ s.controller.dispatched, ∃ e ∈ s.queue, d.body = e.body ∧
    d.verb = (fmt.request e.header).verb ∧ d.url = (fmt.request e.header).url
  finds : ∀ target w c h rest r, s.operations target = some w → w.pending = (c, h) :: rest →
    s.queue.admits fmt.toLayout c r = true →
    (∃ s', s.answer fmt ndebug handlers target r = some s') ∧
      ∀ ec len more, (w.answer fmt.toLayout r).handled = (ec, len) :: more →
        ec.failed = false →
          ∃ e ∈ s.queue, Filled fmt.toLayout c e (w.answer fmt.toLayout r).buffer.committed

section Serves

variable {fmt : Format} {ndebug : Bool} {handlers : Handlers Ω} {s : State Ω}
  {owner : Nat → Option RequestId}

/-- What was sent for a context is the response to the request it has. -/
theorem Invariant.send (hs : Invariant fmt ndebug handlers s owner) {send : Controller.Send}
    (hsend : send ∈ s.controller.sends) :
    owner send.request = some send.id ∧ ∃ e ∈ s.queue, send.id = e.id fmt.toLayout ∧
      ∃ d ∈ s.controller.dispatched, d.request = send.request ∧ d.body = e.body ∧
        Responds handlers d.captured (fmt.request e.header) e.body send.response := by
  obtain ⟨stage, hstage, hstands⟩ := hs.stands send.request
  have hsends : send ∈ (stage.view handlers send.request).sends := by
    rw [← hstage]
    exact List.mem_filter.mpr ⟨hsend, by simp⟩
  have hdispatched : ∀ d ∈ (stage.view handlers send.request).dispatched,
      d ∈ s.controller.dispatched := by
    intro d hd
    rw [← hstage] at hd
    exact (List.mem_filter.mp hd).1
  generalize owner send.request = o at hstands ⊢
  generalize s.operations send.request = w at hstands
  have hanswered : ∀ (e : Entry) (captured : Ω), e ∈ s.queue →
      send = ⟨send.request, (fmt.request e.header).requestId,
        (ownResponse handlers captured (fmt.request e.header) e.body).resp.contents⟩ →
      (∀ d : Controller.Dispatch Ω, d = ⟨send.request, (fmt.request e.header).verb,
        (fmt.request e.header).url, e.body, captured⟩ → d ∈ s.controller.dispatched) →
      some (e.id fmt.toLayout) = some send.id ∧ ∃ e ∈ s.queue, send.id = e.id fmt.toLayout ∧
        ∃ d ∈ s.controller.dispatched, d.request = send.request ∧ d.body = e.body ∧
          Responds handlers d.captured (fmt.request e.header) e.body send.response := by
    intro e captured he heq hd
    have hid : send.id = e.id fmt.toLayout :=
      (congrArg Controller.Send.id heq).trans (fmt.requestId_request _ (hs.queue.le_length he))
    have hresponse := Controller.responds_respond handlers captured (fmt.request e.header) e.body
    exact ⟨congrArg some hid.symm, e, he, hid, _, hd _ rfl, rfl, rfl,
      heq ▸ hresponse⟩
  cases hstands with
  | sending captured copy he _ | sent captured copy _ he _ | finished captured copy _ he _ =>
      refine hanswered _ captured he (List.mem_singleton.mp hsends) fun d hd => ?_
      exact hdispatched d (List.mem_singleton.mpr hd)
  | _ => cases hsends

theorem Invariant.length_sends (hs : Invariant fmt ndebug handlers s owner) (rq : Nat) :
    (s.controller.sends.filter (·.request = rq)).length ≤ 1 := by
  obtain ⟨stage, hstage, -⟩ := hs.stands rq
  rw [show s.controller.sends.filter (·.request = rq) = (stage.view handlers rq).sends from
    congrArg ControllerView.View.sends hstage]
  cases stage with
  | sending | sent | finished => exact Nat.le_refl 1
  | _ => exact Nat.zero_le 1

theorem Invariant.once (hs : Invariant fmt ndebug handlers s owner) :
    (s.controller.sends.map (·.id)).Nodup := by
  have hrequests : (s.controller.sends.map (·.request)).Nodup := by
    rw [List.nodup_iff_count_le_one]
    intro rq
    rw [List.count, List.countP_map, List.countP_eq_length_filter]
    exact hs.length_sends rq
  rw [List.Nodup, List.pairwise_map] at hrequests ⊢
  refine hrequests.imp_of_mem fun {a b} ha hb hne hid => hne ?_
  exact hs.owners _ _ a.id (hs.send ha).1 (hid ▸ (hs.send hb).1)

theorem Invariant.sees (hs : Invariant fmt ndebug handlers s owner) {d : Controller.Dispatch Ω}
    (hd : d ∈ s.controller.dispatched) : ∃ e ∈ s.queue, d.body = e.body ∧
      d.verb = (fmt.request e.header).verb ∧ d.url = (fmt.request e.header).url := by
  obtain ⟨stage, hstage, hstands⟩ := hs.stands d.request
  have hmem : d ∈ (stage.view handlers d.request).dispatched := by
    rw [← hstage]
    exact List.mem_filter.mpr ⟨hd, by simp⟩
  generalize owner d.request = o at hstands
  generalize s.operations d.request = w at hstands
  cases hstands with
  | sending captured copy he _ | sent captured copy _ he _ | finished captured copy _ he _ =>
      have heq := List.mem_singleton.mp hmem
      exact ⟨_, he, congrArg (·.body) heq, congrArg (·.verb) heq, congrArg (·.url) heq⟩
  | _ => cases hmem

end Serves

end Winasio.HttpServer
