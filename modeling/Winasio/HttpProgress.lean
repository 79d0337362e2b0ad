import Winasio.Components
import Winasio.HttpServer

/-!
The server answers: where HTTP.sys gives what it is asked for, every request
that has arrived is answered after a bounded number of steps, whatever their
order.
-/

namespace Winasio.HttpProgress

open Function (update)
open Winasio.Transition
open Winasio.EraseFirst
open Winasio.QueueHandle
open Winasio.RequestQueue
open Winasio.QueuedReceive
open Winasio.Controller (Handlers Outcome Operation Closure Responds)
open Winasio.ControllerView (view)
open Winasio.ControllerIsolation (Stage ownResponse)
open Winasio.HttpServer

variable {Ω : Type}

/-- A call succeeds, or says that the request is longer than its room or that the
body is at its end. That the request is longer is an answer only by completion
packet: where the call itself returns `ERROR_MORE_DATA` the operation asks
again without a buffer. -/
def calmReport (c : Call) (r : Report) : Bool :=
  match c.api with
  | .receiveHttpRequest => r.code = 0 || r.code = ErrorCode.moreData && r.queued
  | .receiveRequestEntityBody => r.code = 0 || r.code = ErrorCode.handleEof

def calm (s : State Ω) : Label Ω → Bool
  | .answer target r =>
      ((s.operations target).bind (·.pending.head?)).all fun x => calmReport x.1 r
  | .arrive _ | .sent _ _ | .run _ _ | .finish => true

def calmSystem (fmt : Format) (ndebug : Bool) (handlers : Handlers Ω) :
    System (State Ω) (Label Ω) :=
  ⟨fun s l => if calm s l then step fmt ndebug handlers s l else none⟩

/-- No request arrives. -/
def quiet : Label Ω → Bool
  | .arrive _ => false
  | .answer _ _ | .sent _ _ | .run _ _ | .finish => true

/-- The response to a request is sent. -/
def Answered (fmt : Format) (handlers : Handlers Ω) (s : State Ω) (e : Entry) : Prop :=
  ∃ send ∈ s.controller.sends, send.id = e.id fmt.toLayout ∧ ∃ captured,
    Responds handlers captured (fmt.request e.header) e.body send.response

def AllAnswered (fmt : Format) (handlers : Handlers Ω) (s : State Ω) : Prop :=
  ∀ e ∈ s.queue, Answered fmt handlers s e

def entryWeight (e : Entry) : Nat :=
  match e.delivery with
  | .waiting => e.body.length + 10
  | .announced => e.body.length + 9
  | .delivered rest => rest.length

def kernelWeight (op : Operation) : Nat :=
  match op.call with
  | .receive _ => 0
  | .receiveBody _ _ => 6
  | .send _ _ _ => 3

def queuedWeight (x : Operation × Outcome) : Nat :=
  match x.1.call with
  | .receive _ => 8
  | .receiveBody _ _ => 5
  | .send _ _ _ => 2

def runningWeight : Option Closure → Nat
  | none => 0
  | some _ => 1

def controllerWeight (c : Controller.State Ω) : Nat :=
  (c.inKernel.map kernelWeight).sum + (c.queued.map queuedWeight).sum + runningWeight c.running

/-- How many steps there can be until every request is answered. -/
def weight (s : State Ω) : Nat :=
  (s.queue.map entryWeight).sum + controllerWeight s.controller

/-- What the handlers have been told, or will be. -/
def told (c : Controller.State Ω) : List (Closure × Outcome) :=
  c.handled ++ c.queued.map fun x => (x.1.closure, x.2)

/-- Where nothing has failed: a request that HTTP.sys has begun to give away has a
context, and every operation waits for an answer. -/
structure Calm (fmt : Format) (ndebug : Bool) (handlers : Handlers Ω) (s : State Ω)
    (owner : Nat → Option RequestId) : Prop where
  invariant : Invariant fmt ndebug handlers s owner
  served : ∀ e ∈ s.queue, e.delivery ≠ .waiting → ∃ rq, owner rq = some (e.id fmt.toLayout)
  waits : ∀ rq w, s.operations rq = some w →
    w.assertsHold = true ∧ ∃ c h, w.pending = [(c, h)] ∧ c.length ≠ 0
  whole : ∀ rq f data, (Closure.receiveBody rq, Outcome.receiveBody (some f) data) ∉
    told s.controller
  running : s.aborted = false

section Weights

variable {L : Layout} {q : Queue}

theorem sum_update (hq : Sound L q) {e : Entry} (he : e ∈ q) (f : Entry → Delivery) :
    ((q.update L (e.id L) f).map entryWeight).sum + entryWeight e =
      (q.map entryWeight).sum + entryWeight { e with delivery := f e } := by
  obtain ⟨before, after, rfl⟩ := List.append_of_mem he
  have hids := hq.ids
  rw [List.map_append, List.map_cons, List.nodup_middle, List.nodup_cons, List.mem_append] at hids
  have hother : ∀ xs : Queue, e.id L ∉ xs.map (fun e => e.id L) → xs.update L (e.id L) f = xs := by
    intro xs hxs
    rw [Queue.update]
    refine (List.map_congr_left fun x hx => if_neg fun hid => hxs ?_).trans (List.map_id xs)
    exact List.mem_map.mpr ⟨x, hx, hid⟩
  have hupdate : Queue.update (before ++ e :: after) L (e.id L) f =
      before ++ { e with delivery := f e } :: after := by
    have hbefore := hother before fun h => hids.1 (.inl h)
    have hafter := hother after fun h => hids.1 (.inr h)
    rw [Queue.update] at hbefore hafter ⊢
    rw [List.map_append, List.map_cons, hbefore, hafter, if_pos rfl]
  rw [hupdate]
  simp only [List.map_append, List.map_cons, List.sum_append, List.sum_cons]
  omega

theorem weight_completed {c : Controller.State Ω} {target : Nat} {op : Operation}
    (hop : c.inKernel.find? (·.target = target) = some op) (o : Outcome) :
    controllerWeight (ControllerView.completed c target op o) + kernelWeight op =
      controllerWeight c + queuedWeight (op, o) := by
  have hsum := sum_map_eraseP kernelWeight hop
  simp only [controllerWeight, ControllerView.completed, List.map_append, List.sum_append,
    List.map_cons, List.map_nil, List.sum_cons, List.sum_nil]
  omega

theorem weight_pop {c : Controller.State Ω} {target : Nat} {op : Operation} {o : Outcome}
    (hrunning : c.running = none) (hop : c.queued.find? (·.1.target = target) = some (op, o)) :
    controllerWeight (ControllerView.pop c target op o) + queuedWeight (op, o) =
      controllerWeight c + 1 := by
  have hsum := sum_map_eraseP queuedWeight hop
  simp only [controllerWeight, ControllerView.pop, hrunning, runningWeight]
  omega

end Weights

section Step

variable {fmt : Format} {ndebug : Bool} {handlers : Handlers Ω} {s s' : State Ω}
  {owner : Nat → Option RequestId} {target : Nat}

/-- One operation more is queued for the executor. -/
theorem told_completed {c c' : Controller.State Ω} {o : Outcome}
    (h : Controller.step handlers c (.complete target o) = some c') {x : Closure × Outcome}
    (hx : x ∈ told c') : x ∈ told c ∨ x.2 = o := by
  obtain ⟨op, -, -, rfl⟩ := ControllerView.step_complete h
  simp only [told, ControllerView.completed, List.map_append, List.mem_append, List.map_cons,
    List.map_nil, List.mem_singleton] at hx ⊢
  rcases hx with hx | hx | rfl
  · exact .inl (.inl hx)
  · exact .inl (.inr hx)
  · exact .inr rfl

theorem frame_of_ran {captured : Ω} {c c' : Controller.State Ω} {stage : Stage Ω}
    (h : ControllerIsolation.Ran handlers captured target c stage c') :
    c'.queued = c.queued ∧ c'.handled = c.handled ∧ c'.running = c.running := by
  cases h with
  | header request hbody =>
      obtain ⟨request', -, rfl⟩ := Option.map_eq_some_iff.mp hbody
      exact ⟨rfl, rfl, rfl⟩
  | refused | dropped | dispatch | finished => exact ⟨rfl, rfl, rfl⟩

theorem told_ran {captured : Ω} {c c' : Controller.State Ω} {op : Operation} {o : Outcome}
    {stage : Stage Ω} (hop : c.queued.find? (·.1.target = target) = some (op, o))
    (h : ControllerIsolation.Ran handlers captured target (ControllerView.pop c target op o) stage
      c') {x : Closure × Outcome} (hx : x ∈ told c') : x ∈ told c := by
  obtain ⟨hqueued, hhandled, -⟩ := frame_of_ran h
  rw [told, hqueued, hhandled] at hx
  simp only [ControllerView.pop, List.mem_append, List.mem_singleton] at hx
  rw [told, List.mem_append]
  rcases hx with (hx | rfl) | hx
  · exact .inl hx
  · exact .inr (List.mem_map.mpr ⟨(op, o), List.mem_of_find?_eq_some hop, rfl⟩)
  · obtain ⟨y, hy, rfl⟩ := List.mem_map.mp hx
    exact .inr (List.mem_map.mpr ⟨y, List.mem_of_mem_eraseP hy, rfl⟩)

/-- The operation on `target` is over, with an outcome that is no failure. -/
theorem Calm.completed (hs : Calm fmt ndebug handlers s owner) {owner' : Nat → Option RequestId}
    {w : World} {c : Call} {r : Report} {ec : ErrorCode} {buffer : Bytes}
    (hinv : Invariant fmt ndebug handlers s' owner')
    (hserved : ∀ e ∈ s'.queue, e.delivery ≠ .waiting →
      ∃ rq, owner' rq = some (e.id fmt.toLayout))
    (hholds : (w.answer fmt.toLayout r).assertsHold = true) (hec : ec.failed = false)
    (hs' : (answered fmt ndebug s target w c r).complete fmt handlers target ec buffer = some s') :
    Calm fmt ndebug handlers s' owner' := by
  obtain ⟨op, o, controller, -, ho, hcontroller, rfl⟩ := complete_eq_some hs'
  refine ⟨hinv, hserved, ?_, ?_, ?_⟩
  · intro rq w' hw'
    dsimp only [answered] at hw'
    by_cases hrq : rq = target
    · rw [hrq, Function.update_self] at hw'
      cases hw'
    · rw [Function.update_of_ne hrq, Function.update_of_ne hrq] at hw'
      exact hs.waits rq w' hw'
  · intro rq f data hx
    rcases told_completed hcontroller hx with hx | hx
    · exact hs.whole rq f data hx
    · have hnone : failure ec = none := dif_neg (by rw [hec]; decide)
      dsimp only at hx
      subst hx
      simp only [outcome, hnone] at ho
      split at ho
      · split at ho <;> cases ho
      · cases ho
      · cases ho
  · simp [answered, hholds]

/-- The operation on `target` asks on. -/
theorem Calm.waitsOn (hs : Calm fmt ndebug handlers s owner) {owner' : Nat → Option RequestId}
    {w : World} {c : Call} {r : Report}
    (hinv : Invariant fmt ndebug handlers (answered fmt ndebug s target w c r) owner')
    (hserved : ∀ e ∈ s.queue.after fmt.toLayout c r, e.delivery ≠ .waiting →
      ∃ rq, owner' rq = some (e.id fmt.toLayout))
    (hholds : (w.answer fmt.toLayout r).assertsHold = true)
    (hpending : ∃ c' h, (w.answer fmt.toLayout r).pending = [(c', h)] ∧ c'.length ≠ 0) :
    Calm fmt ndebug handlers (answered fmt ndebug s target w c r) owner' := by
  refine ⟨hinv, hserved, ?_, hs.whole, by simp [answered, hholds]⟩
  intro rq w' hw'
  dsimp only [answered] at hw'
  by_cases hrq : rq = target
  · rw [hrq, Function.update_self] at hw'
    cases hw'
    exact ⟨hholds, hpending⟩
  · rw [Function.update_of_ne hrq] at hw'
    exact hs.waits rq w' hw'

/-- The request that `target` has got a claim to is served. -/
theorem Calm.served_update (hs : Calm fmt ndebug handlers s owner) {e : Entry}
    {f : Entry → Delivery} (hclaims : Claims s.queue fmt.toLayout (owner target) e ∨
      owner target = some (e.id fmt.toLayout)) :
    ∀ e' ∈ s.queue.update fmt.toLayout (e.id fmt.toLayout) f, e'.delivery ≠ .waiting →
      ∃ rq, update owner target (some (e.id fmt.toLayout)) rq = some (e'.id fmt.toLayout) := by
  intro e' he' hdelivery
  obtain ⟨x, hx, rfl⟩ := List.mem_map.mp he'
  by_cases hid : x.id fmt.toLayout = e.id fmt.toLayout
  · refine ⟨target, ?_⟩
    rw [Function.update_self, if_pos hid]
    exact congrArg some hid.symm
  · rw [if_neg hid] at hdelivery ⊢
    obtain ⟨rq, hrq⟩ := hs.served x hx hdelivery
    have hne : rq ≠ target := by
      rintro rfl
      rcases hclaims with ⟨-, ⟨hnone, -⟩ | ⟨hsome, -⟩⟩ | hsome
      · rw [hnone] at hrq
        cases hrq
      · exact hid (Option.some.inj (hrq.symm.trans hsome))
      · exact hid (Option.some.inj (hrq.symm.trans hsome))
    exact ⟨rq, (Function.update_of_ne hne _ _).trans hrq⟩

/-- The next call of an operation that was told a size has the room for it. -/
theorem length_pending {q : Queue} {L : Layout} (hq : Sound L q) {id : RequestId} {w : World}
    (hw : Asks L ndebug q (some id) w) : ∃ c h, w.pending = [(c, h)] ∧ c.length ≠ 0 := by
  cases hw with
  | @again w e hw he hdelivery hid =>
      refine ⟨_, _, pending_recieve hw.pending _ _, fun hzero => ?_⟩
      have hlength := (ReceiveRequest.requestCall_buffer (hq.le_length he) (hq.length_lt he) w false).2
      have hpos := hq.le_length he
      have hfits := L.requestId_le
      rw [hzero, UInt32.toNat_zero] at hlength
      omega

theorem length_receiving {id : RequestId} {body remaining : Bytes} {w : World}
    (hw : ReceiveBody.Receiving id bodySizeHint [] body (w, remaining)) (hpending : w.pending ≠ []) :
    ∃ c h, w.pending = [(c, h)] ∧ c.length ≠ 0 := by
  rcases hw with @⟨w, remaining, len, hw, hlen, hlt⟩ | ⟨hw⟩
  · refine ⟨ReceiveBody.bodyCall w id len, ReceiveBody.receiving id bodySizeHint, ?_, fun hzero => ?_⟩
    · simp [World.recieveBody, World.pend, hw.pending, ReceiveBody.bodyCall]
    · have hlength := ReceiveBody.length_bodyCall hlt w id
      rw [hzero, UInt32.toNat_zero] at hlength
      omega
  · exact absurd hw.pending hpending

theorem weight_of_complete {c c' : Controller.State Ω} {op : Operation} {o : Outcome}
    (hop : c.inKernel.find? (·.target = target) = some op)
    (h : Controller.step handlers c (.complete target o) = some c') :
    controllerWeight c' + kernelWeight op = controllerWeight c + queuedWeight (op, o) := by
  obtain ⟨op', hop', -, rfl⟩ := ControllerView.step_complete h
  cases hop.symm.trans hop'
  exact weight_completed hop o

theorem calm_answerHeader (hs : Calm fmt ndebug handlers s owner) {w : World} {c : Call}
    {h : Handler} {r : Report}
    (hstage : view s.controller target = (Stage.receiving (Ω := Ω)).view handlers target)
    (hasks : Asks fmt.toLayout ndebug s.queue (owner target) w) (hholds : w.assertsHold = true)
    (hpending : w.pending = [(c, h)]) (hr : s.queue.admits fmt.toLayout c r = true)
    (hcalm : calmReport c r = true)
    (hs' : (w.answer fmt.toLayout r).handled = [] ∧ s' = answered fmt ndebug s target w c r ∨
        ∃ ec len more, (w.answer fmt.toLayout r).handled = (ec, len) :: more ∧
          (answered fmt ndebug s target w c r).complete fmt handlers target ec
            (w.answer fmt.toLayout r).buffer.committed = some s') :
    (∃ owner', Calm fmt ndebug handlers s' owner') ∧ weight s' < weight s := by
  have hcalm' : r.code = 0 ∨ r.code = ErrorCode.moreData ∧ r.queued = true := by
    simpa [calmReport, hasks.api hpending] using hcalm
  have hanswered := headerAnswered hs.invariant.queue hasks hpending hr
  rw [hholds] at hanswered
  generalize hq : s.queue.after fmt.toLayout c r = q' at hanswered
  generalize hw : w.answer fmt.toLayout r = w' at hanswered hs'
  cases hanswered with
  | @delivered _ e len hclaims hcode hhandled hcommitted hholds' =>
      obtain ⟨hnil, -⟩ | ⟨ec, len', more, hhandled', hs'⟩ := hs'
      · rw [hhandled] at hnil
        cases hnil
      · rw [hhandled] at hhandled'
        cases hhandled'
        rw [hcommitted] at hs'
        have hinv := hs.invariant.delivered hstage hclaims hq hs'
        have hcomplete := complete_eq_some hs'
        obtain ⟨op, o, controller, hop, ho, hcontroller, heq⟩ := hcomplete
        have hqueue : s'.queue = s.queue.update fmt.toLayout (e.id fmt.toLayout)
            fun e => .delivered e.body := by
          rw [heq]
          exact hq
        have hserved := hs.served_update (f := fun e => .delivered e.body) (.inl hclaims)
        rw [← hqueue] at hserved
        refine ⟨⟨_, hs.completed hinv hserved (hw ▸ hholds') rfl hs'⟩, ?_⟩
        have hsum := sum_update hs.invariant.queue hclaims.1 fun e => .delivered e.body
        have hweight := weight_of_complete hop hcontroller
        have hkind : (view s.controller target).inKernel.head? = some op :=
          (ControllerView.head?_inKernel s.controller target).symm.trans hop
        rw [hstage] at hkind
        cases hkind
        have hentry : e.body.length + 9 ≤ entryWeight e := by
          obtain ⟨-, ⟨-, hdelivery⟩ | ⟨-, hdelivery⟩⟩ := hclaims
          · simp [entryWeight, hdelivery]
          · simp [entryWeight, hdelivery]
        have hnew : weight s' = (s'.queue.map entryWeight).sum + controllerWeight controller := by
          rw [heq]
          rfl
        rw [hnew, hqueue, weight]
        change controllerWeight controller + 0 = controllerWeight s.controller + 8 at hweight
        change _ + entryWeight e = _ + e.body.length at hsum
        omega
  | failed len hzero hmore hhandled =>
      rcases hcalm' with h | ⟨h, -⟩
      · exact absurd h hzero
      · exact absurd h hmore
  | @announced _ e o hclaims hnone hcode ho hasks' =>
      obtain ⟨-, rfl⟩ | ⟨ec, len', more, hhandled', hs'⟩ := hs'
      · obtain ⟨rfl, hholds'⟩ : o = some (e.id fmt.toLayout) ∧ w'.assertsHold = true := by
          rcases ho with ho | ⟨-, hqueued⟩
          · exact ho
          · rcases hcalm' with h | ⟨-, h⟩
            · rw [hcode] at h
              cases h
            · rw [hqueued] at h
              cases h
        have hinv := hs.invariant.announced hstage hclaims hq (hq.symm ▸ hw.symm ▸ hasks') (.inl rfl)
        have hserved := hs.served_update (f := fun _ => .announced) (.inl (hnone ▸ hclaims))
        rw [← hq] at hserved
        have hsound := hs.invariant.queue.update (e.id fmt.toLayout) fun _ => .announced
        refine ⟨⟨_, hs.waitsOn hinv hserved (hw ▸ hholds') (hw ▸ length_pending hsound hasks')⟩, ?_⟩
        have hsum := sum_update hs.invariant.queue hclaims.1 fun _ => .announced
        have hentry : entryWeight e = e.body.length + 10 := by
          obtain ⟨-, ⟨-, hdelivery⟩ | ⟨hfalse, -⟩⟩ := hclaims
          · simp [entryWeight, hdelivery]
          · cases hfalse
        have hnew : weight (answered fmt ndebug s target w c r) =
            ((s.queue.after fmt.toLayout c r).map entryWeight).sum +
              controllerWeight s.controller := rfl
        rw [hnew, hq, weight]
        change _ + entryWeight e = _ + (e.body.length + 9) at hsum
        omega
      · rw [hasks'.handled] at hhandled'
        cases hhandled'
  | aborted hzero hqueued hpending' hhandled =>
      rcases hcalm' with h | ⟨-, h⟩
      · exact absurd h hzero
      · rw [hqueued] at h
        cases h

theorem calm_answerBody (hs : Calm fmt ndebug handlers s owner) {w : World} {c : Call}
    {h : Handler} {r : Report} {e : Entry} {remaining : Bytes}
    (hstage : view s.controller target =
      (Stage.readingBody (fmt.request e.header)).view handlers target)
    (he : e ∈ s.queue) (howned : owner target = some (e.id fmt.toLayout))
    (hdelivery : e.delivery = .delivered remaining)
    (hw : ReceiveBody.Receiving (e.id fmt.toLayout) bodySizeHint [] e.body (w, remaining))
    (hholds : w.assertsHold = true) (hpending : w.pending = [(c, h)])
    (hr : s.queue.admits fmt.toLayout c r = true) (hcalm : calmReport c r = true)
    (hs' : (w.answer fmt.toLayout r).handled = [] ∧ s' = answered fmt ndebug s target w c r ∨
        ∃ ec len more, (w.answer fmt.toLayout r).handled = (ec, len) :: more ∧
          (answered fmt ndebug s target w c r).complete fmt handlers target ec
            (w.answer fmt.toLayout r).buffer.committed = some s') :
    (∃ owner', Calm fmt ndebug handlers s' owner') ∧ weight s' < weight s := by
  have hinv := hs.invariant.answerBody hstage he howned hdelivery hw hpending hr hs'
  have hcalm' : r.code = 0 ∨ r.code = ErrorCode.handleEof := by
    simpa [calmReport, (call_of_receiving hw hpending).1] using hcalm
  obtain ⟨hq, hw', hless⟩ :=
    bodyAnswered (by decide) (by decide) hs.invariant.queue he hdelivery hw hpending hr
  obtain ⟨hlast, hholds'⟩ := answer_frame (L := fmt.toLayout) (r := r) hw hpending
  rw [hholds] at hholds'
  have hserved := hs.served_update (e := e)
    (f := fun _ => .delivered (ReceiveBody.after remaining r)) (.inr howned)
  rw [← hq, ← howned, Function.update_eq_self] at hserved
  have hsum := sum_update hs.invariant.queue he fun _ =>
    .delivered (ReceiveBody.after remaining r)
  rw [← hq] at hsum
  have hentry : entryWeight e = remaining.length := by simp [entryWeight, hdelivery]
  change _ + entryWeight e = _ + (ReceiveBody.after remaining r).length at hsum
  have hwaiting : w.pending ≠ [] := by simp [hpending]
  rw [ReceiveBody.workload, ReceiveBody.workload, if_neg hwaiting] at hless
  dsimp only at hless
  rcases receiving_cases hw' with ⟨hpending', hhandled⟩ | ⟨len, hpending', hhandled, -⟩ |
    ⟨c', r', len, -, hlast', -, hzero, heof⟩
  · obtain ⟨-, rfl⟩ | ⟨ec, len', more, hhandled', hs'⟩ := hs'
    · rw [if_neg hpending'] at hless
      refine ⟨⟨owner, hs.waitsOn hinv hserved hholds' (length_receiving hw' hpending')⟩, ?_⟩
      have hnew : weight (answered fmt ndebug s target w c r) =
          ((s.queue.after fmt.toLayout c r).map entryWeight).sum +
            controllerWeight s.controller := rfl
      rw [hnew, weight]
      omega
    · rw [hhandled] at hhandled'
      cases hhandled'
  · obtain ⟨hnil, -⟩ | ⟨ec, len', more, hhandled', hs'⟩ := hs'
    · rw [hhandled] at hnil
      cases hnil
    · rw [hhandled] at hhandled'
      cases hhandled'
      have hcomplete := complete_eq_some hs'
      obtain ⟨op, o, controller, hop, ho, hcontroller, heq⟩ := hcomplete
      have hqueue : s'.queue = s.queue.after fmt.toLayout c r := by
        rw [heq]
        rfl
      rw [← hqueue] at hserved
      refine ⟨⟨owner, hs.completed hinv hserved hholds' rfl hs'⟩, ?_⟩
      have hweight := weight_of_complete hop hcontroller
      have hkind : (view s.controller target).inKernel.head? = some op :=
        (ControllerView.head?_inKernel s.controller target).symm.trans hop
      rw [hstage] at hkind
      cases hkind
      have hnew : weight s' = (s'.queue.map entryWeight).sum + controllerWeight controller := by
        rw [heq]
        rfl
      rw [hnew, hqueue, weight]
      change controllerWeight controller + 6 = controllerWeight s.controller + 5 at hweight
      omega
  · rw [hlast] at hlast'
    cases hlast'
    rcases hcalm' with h | h
    · exact absurd h hzero
    · exact absurd h heof

theorem calm_answer (hs : Calm fmt ndebug handlers s owner) {r : Report}
    (hcalm : calm s (.answer target r) = true)
    (h : s.answer fmt ndebug handlers target r = some s') :
    (∃ owner', Calm fmt ndebug handlers s' owner') ∧ weight s' < weight s := by
  obtain ⟨w, c, h', rest, hw, hpending, hr, hs'⟩ := answer_eq_some h
  obtain ⟨stage, hstage, hstands⟩ := hs.invariant.stands target
  obtain ⟨hholds, c', h'', hone, -⟩ := hs.waits target w hw
  cases hpending.symm.trans hone
  have hreport : calmReport c r = true := by
    simpa only [calm, hw, Option.bind_some, hpending, List.head?_cons, Option.all_some] using hcalm
  rw [hw] at hstands
  generalize howned : owner target = o at hstands
  cases hstands with
  | receiving hasks =>
      exact calm_answerHeader hs hstage (howned ▸ hasks) hholds hpending hr hreport hs'
  | readingBody he hdelivery hreceiving hwaits =>
      exact calm_answerBody hs hstage he howned hdelivery hreceiving hholds hpending hr hreport hs'

theorem calm_sent (hs : Calm fmt ndebug handlers s owner) {error : Option Failure}
    {controller : Controller.State Ω}
    (h : Controller.step handlers s.controller (.complete target (.send error)) =
      some controller) :
    Calm fmt ndebug handlers { s with controller } owner ∧ weight { s with controller } < weight s := by
  have hinv := hs.invariant.sent h
  rw [Function.update_eq_self] at hinv
  refine ⟨⟨hinv, hs.served, hs.waits, ?_, hs.running⟩, ?_⟩
  · intro rq f data hx
    rcases told_completed h hx with hx | hx
    · exact hs.whole rq f data hx
    · cases hx
  · obtain ⟨op, hop, hadmits, -⟩ := ControllerView.step_complete h
    have hweight := weight_of_complete hop h
    change (s.queue.map entryWeight).sum + controllerWeight controller <
      (s.queue.map entryWeight).sum + controllerWeight s.controller
    simp only [kernelWeight, queuedWeight] at hweight
    split at hweight
    · next hcall =>
        rw [hcall] at hadmits
        cases hadmits
    · next hcall =>
        rw [hcall] at hadmits
        cases hadmits
    · omega

theorem calm_finish (hs : Calm fmt ndebug handlers s owner) {controller : Controller.State Ω}
    (h : Controller.step handlers s.controller .finish = some controller) :
    Calm fmt ndebug handlers { s with controller } owner ∧ weight { s with controller } < weight s := by
  obtain ⟨hrunning, rfl⟩ := ControllerView.step_finish h
  refine ⟨⟨⟨hs.invariant.controller.step h, hs.invariant.queue, hs.invariant.owners,
    hs.invariant.stands⟩, hs.served, hs.waits, hs.whole, hs.running⟩, ?_⟩
  obtain ⟨closure, hclosure⟩ := Option.ne_none_iff_exists'.mp hrunning
  simp only [weight, controllerWeight, hclosure, runningWeight]
  omega

theorem calm_arrive (hs : Calm fmt ndebug handlers s owner) {a : Arrival} {q : Queue}
    (h : s.queue.arrive fmt.toLayout a = some q) :
    Calm fmt ndebug handlers { s with queue := q } owner := by
  obtain ⟨hsound, rfl⟩ := hs.invariant.queue.arrive h
  refine ⟨⟨hs.invariant.controller, hsound, hs.invariant.owners, fun rq => ?_⟩, ?_, hs.waits,
    hs.whole, hs.running⟩
  · obtain ⟨stage, hstage, hstands⟩ := hs.invariant.stands rq
    exact ⟨stage, hstage, hstands.frame fun e he _ _ => List.mem_append_left _ he⟩
  · intro e he hdelivery
    rcases List.mem_append.mp he with he | he
    · exact hs.served e he hdelivery
    · rw [List.mem_singleton.mp he] at hdelivery
      exact absurd rfl hdelivery

theorem weight_launches {n : Nat} {captured : Ω} {stage : Stage Ω} {op : Operation} {o : Outcome}
    (hqueued : (stage.view handlers target).queued = [(op, o)]) :
    ((launches handlers target n captured stage).map kernelWeight).sum + 1 <
      queuedWeight (op, o) := by
  cases stage with
  | received result =>
      cases hqueued
      cases result <;> simp [launches, kernelWeight, queuedWeight]
  | bodyRead request error data =>
      cases hqueued
      cases error <;>
        simp [launches, kernelWeight, queuedWeight, ControllerIsolation.sendOperation]
  | sent request data captured' copy error =>
      cases hqueued
      simp [launches, queuedWeight, ControllerIsolation.sendOperation]
  | unused | receiving | refused | readingBody | dropped | sending | finished => cases hqueued

theorem frame_launch (fmt : Format) (ndebug : Bool) (ops : List Operation) (s : State Ω) :
    (ops.foldl (State.launch fmt ndebug) s).controller = s.controller ∧
      (ops.foldl (State.launch fmt ndebug) s).queue = s.queue ∧
      (ops.foldl (State.launch fmt ndebug) s).aborted = s.aborted := by
  induction ops generalizing s with
  | nil => exact ⟨rfl, rfl, rfl⟩
  | cons op ops ih =>
      obtain ⟨hcontroller, hqueue, haborted⟩ := ih (s.launch fmt ndebug op)
      rw [List.foldl_cons, hcontroller, hqueue, haborted]
      rcases op with ⟨closure, _ | _ | _⟩ <;> exact ⟨rfl, rfl, rfl⟩

/-- The operations that are started wait for an answer. -/
theorem waits_launch (fmt : Format) (ndebug : Bool) (ops : List Operation) {s : State Ω}
    (hs : ∀ rq w, s.operations rq = some w →
      w.assertsHold = true ∧ ∃ c h, w.pending = [(c, h)] ∧ c.length ≠ 0) :
    ∀ rq w, (ops.foldl (State.launch fmt ndebug) s).operations rq = some w →
      w.assertsHold = true ∧ ∃ c h, w.pending = [(c, h)] ∧ c.length ≠ 0 := by
  induction ops generalizing s with
  | nil => exact hs
  | cons op ops ih =>
      refine ih fun rq w hw => ?_
      have hone : ∀ target (w' : World), update s.operations target (some w') rq = some w →
          (w'.assertsHold = true ∧ ∃ c h, w'.pending = [(c, h)] ∧ c.length ≠ 0) →
          w.assertsHold = true ∧ ∃ c h, w.pending = [(c, h)] ∧ c.length ≠ 0 := by
        intro target w' hupdate hw'
        by_cases hrq : rq = target
        · rw [hrq, Function.update_self] at hupdate
          exact Option.some.inj hupdate ▸ hw'
        · rw [Function.update_of_ne hrq] at hupdate
          exact hs rq w hupdate
      rcases op with ⟨closure, target | ⟨target, id⟩ | ⟨target, id, response⟩⟩
      · refine hone target _ hw ⟨rfl, _, _, pending_recieve rfl _ _, fun hzero => ?_⟩
        have hlength := (ReceiveRequest.requestCall_buffer (Nat.le_add_right _ _)
          fmt.initialSize_lt { ndebug, buffer := {} } true).2
        rw [hzero, UInt32.toNat_zero] at hlength
        omega
      · have hreceiving : ReceiveBody.Receiving id bodySizeHint [] []
            (ReceiveBody.start fmt.toLayout ndebug {} id bodySizeHint, []) :=
          .waiting ⟨rfl, rfl, by simp, rfl, rfl⟩ (by decide) (by decide)
        exact hone target _ hw ⟨rfl, length_receiving hreceiving (List.cons_ne_nil _ _)⟩
      · exact hs rq w hw

theorem calm_run (hs : Calm fmt ndebug handlers s owner) {captured : Ω}
    {controller : Controller.State Ω}
    (h : Controller.step handlers s.controller (.run target captured) = some controller) :
    let s' := (controller.inKernel.drop s.controller.inKernel.length).foldl
      (State.launch fmt ndebug) { s with controller }
    Calm fmt ndebug handlers s' owner ∧ weight s' < weight s := by
  intro s'
  have hinv := hs.invariant.run h
  obtain ⟨stage, hstage, hstands⟩ := hs.invariant.stands target
  obtain ⟨op, o, hrunning, hop, hqueued, hrequest, hran⟩ :=
    ControllerIsolation.ran_of_step hstage h
  obtain ⟨hcontroller, hqueue, haborted⟩ := frame_launch fmt ndebug
    (controller.inKernel.drop s.controller.inKernel.length) { s with controller }
  refine ⟨⟨hinv, ?_, waits_launch fmt ndebug _ hs.waits, ?_, haborted.trans hs.running⟩, ?_⟩
  · rw [hqueue]
    exact hs.served
  · rw [hcontroller]
    exact fun rq f data hx => hs.whole rq f data (told_ran hop hran hx)
  · rw [weight, hqueue, hcontroller, weight]
    have hpop := weight_pop hrunning hop
    have hlaunches : controller.inKernel =
        (ControllerView.pop s.controller target op o).inKernel ++
          launches handlers target s.controller.contexts.length captured stage :=
      inKernel_of_ran ((ControllerView.view_pop_self hop hrequest).trans
        (congrArg ControllerView.View.popped hstage)) hran
    obtain ⟨hsame, -, hrunning'⟩ := frame_of_ran hran
    have hless : ((launches handlers target s.controller.contexts.length captured stage).map
        kernelWeight).sum + 1 < queuedWeight (op, o) := weight_launches hqueued
    have hcontroller' : controllerWeight controller =
        controllerWeight (ControllerView.pop s.controller target op o) +
          ((launches handlers target s.controller.contexts.length captured stage).map
            kernelWeight).sum := by
      rw [controllerWeight, hlaunches, hsame, hrunning', controllerWeight, List.map_append,
        List.sum_append]
      omega
    dsimp only
    omega

theorem calm_step (hs : Calm fmt ndebug handlers s owner) {l : Label Ω}
    (h : (calmSystem fmt ndebug handlers).step s l = some s') :
    (∃ owner', Calm fmt ndebug handlers s' owner') ∧ (quiet l = true → weight s' < weight s) := by
  obtain ⟨hcalm, h⟩ := Option.ite_none_right_eq_some.mp h
  obtain ⟨-, h⟩ := Option.ite_none_left_eq_some.mp h
  cases l with
  | arrive a =>
      obtain ⟨q, hq, rfl⟩ := Option.map_eq_some_iff.mp h
      exact ⟨⟨owner, calm_arrive hs hq⟩, fun hquiet => by cases hquiet⟩
  | answer target r =>
      obtain ⟨hnext, hless⟩ := calm_answer hs hcalm h
      exact ⟨hnext, fun _ => hless⟩
  | sent target error =>
      obtain ⟨controller, hcontroller, rfl⟩ := Option.map_eq_some_iff.mp h
      obtain ⟨hnext, hless⟩ := calm_sent hs hcontroller
      exact ⟨⟨owner, hnext⟩, fun _ => hless⟩
  | run target captured =>
      obtain ⟨controller, hcontroller, rfl⟩ := Option.map_eq_some_iff.mp h
      obtain ⟨hnext, hless⟩ := calm_run hs hcontroller
      exact ⟨⟨owner, hnext⟩, fun _ => hless⟩
  | finish =>
      obtain ⟨controller, hcontroller, rfl⟩ := Option.map_eq_some_iff.mp h
      obtain ⟨hnext, hless⟩ := calm_finish hs hcontroller
      exact ⟨⟨owner, hnext⟩, fun _ => hless⟩

end Step

section Progress

variable {fmt : Format} {ndebug : Bool} {handlers : Handlers Ω} {s : State Ω}
  {owner : Nat → Option RequestId} {target : Nat}

/-- An answer by completion packet. -/
def packet (status : UInt32) (written : Bytes) (len : Nat) : Report where
  result := 0
  written
  status
  length := .ofNat len

theorem len_packet (status : UInt32) (written : Bytes) {len : Nat} (h : len < 2 ^ 32) :
    (packet status written len).len = len := by
  change (UInt32.ofNat len).toNat = len
  rw [UInt32.toNat_ofNat']
  omega

theorem exists_answer_any {q : Queue} {L : Layout} (hq : Sound L q) {e : Entry} (he : e ∈ q)
    (hdelivery : e.delivery = .waiting) {c : Call} (hapi : c.api = .receiveHttpRequest)
    (hid : c.id = nullId) (hlength : L.sizeofHttpRequest ≤ c.length.toNat) :
    ∃ r, q.admits L c r = true ∧ calmReport c r = true := by
  have hasked : e.asked L c = true := by
    rw [Entry.asked, if_pos hid]
    exact decide_eq_true hdelivery
  by_cases hfits : e.header.length ≤ c.length.toNat
  · refine ⟨packet 0 e.header e.header.length, ?_, by simp [calmReport, hapi, packet, Report.code, Report.queued]⟩
    simp only [Queue.admits, hapi]
    refine decide_eq_true ⟨hfits, fun _ => ⟨e, he, hasked, rfl, len_packet _ _ (hq.length_lt he)⟩,
      fun h => ?_, fun h => ?_, fun h => ?_⟩
    · cases h
    · cases h
    · cases h
  · have hsize := hq.le_length he
    refine ⟨packet ErrorCode.moreData (e.header.take L.sizeofHttpRequest) e.header.length, ?_,
      by simp [calmReport, hapi, packet, Report.code, Report.queued]⟩
    simp only [Queue.admits, hapi]
    have hwritten : (e.header.take L.sizeofHttpRequest).length = L.sizeofHttpRequest :=
      List.length_take_of_le hsize
    refine decide_eq_true ⟨hwritten.trans_le hlength, fun h => ?_, fun _ => ⟨e, he, hasked,
      hwritten.ge, ?_, Nat.lt_of_not_le hfits, fun _ => len_packet _ _ (hq.length_lt he)⟩,
      fun h => ?_, fun h => ?_⟩
    · cases h
    · exact L.requestId_congr (Nat.le_refl _) (by simp [packet, List.take_take])
    · cases h
    · cases h

theorem exists_answer_again {q : Queue} {L : Layout} (hq : Sound L q) {e : Entry} (he : e ∈ q)
    (hdelivery : e.delivery = .announced) {c : Call} (hapi : c.api = .receiveHttpRequest)
    (hid : c.id = e.id L) (hlength : c.length.toNat = e.header.length) :
    ∃ r, q.admits L c r = true ∧ calmReport c r = true := by
  have hasked : e.asked L c = true := by
    rw [Entry.asked, if_neg (hid ▸ hq.id_ne_nullId he)]
    exact decide_eq_true ⟨hid.symm, hdelivery⟩
  refine ⟨packet 0 e.header e.header.length, ?_,
    by simp [calmReport, hapi, packet, Report.code, Report.queued]⟩
  simp only [Queue.admits, hapi]
  refine decide_eq_true ⟨hlength.ge, fun _ => ⟨e, he, hasked, rfl,
    len_packet _ _ (hq.length_lt he)⟩, fun h => ?_, fun h => ?_, fun h => ?_⟩
  · cases h
  · cases h
  · cases h

theorem exists_answer_body {q : Queue} {L : Layout} (hq : Sound L q) {e : Entry} (he : e ∈ q)
    {rest : Bytes} (hdelivery : e.delivery = .delivered rest) {c : Call}
    (hapi : c.api = .receiveRequestEntityBody) (hid : c.id = e.id L) (hlength : c.length ≠ 0) :
    ∃ r, q.admits L c r = true ∧ calmReport c r = true := by
  have hrest := hq.rest_eq he hdelivery
  have hlt := c.length.toNat_lt
  have hpos : c.length.toNat ≠ 0 := fun h => hlength (UInt32.toNat_inj.mp h)
  by_cases hfits : rest.length ≤ c.length.toNat
  · refine ⟨packet ErrorCode.handleEof rest rest.length, ?_,
      by simp [calmReport, hapi, packet, Report.code, Report.queued]⟩
    simp only [Queue.admits, hapi, Queue.admitsBody, hid, hrest]
    refine decide_eq_true ⟨hfits, fun h => ?_, fun _ => ⟨rfl, len_packet _ _ (by omega)⟩⟩
    cases h
  · have hwritten : (rest.take c.length.toNat).length = c.length.toNat :=
      List.length_take_of_le (Nat.le_of_not_le hfits)
    refine ⟨packet 0 (rest.take c.length.toNat) c.length.toNat, ?_,
      by simp [calmReport, hapi, packet, Report.code, Report.queued]⟩
    simp only [Queue.admits, hapi, Queue.admitsBody, hid, hrest]
    refine decide_eq_true ⟨hwritten.le, fun _ => ⟨?_, List.take_prefix _ _, fun _ hnil => ?_, ?_⟩,
      fun h => ?_⟩
    · rintro rfl
      exact hfits (Nat.zero_le _)
    · exact hpos (hwritten.symm.trans (congrArg List.length hnil))
    · rw [len_packet _ _ hlt]
      exact hwritten.symm
    · cases h

/-- An answer that HTTP.sys can give is a step. -/
theorem answer_progress (hs : Calm fmt ndebug handlers s owner) {w : World} {c : Call}
    {h : Handler} (hw : s.operations target = some w) (hpending : w.pending = [(c, h)])
    (hr : ∃ r, s.queue.admits fmt.toLayout c r = true ∧ calmReport c r = true) :
    ∃ l s', quiet l = true ∧ (calmSystem fmt ndebug handlers).step s l = some s' := by
  obtain ⟨r, hadmits, hcalm⟩ := hr
  obtain ⟨s', hs'⟩ := answer_enabled hs.invariant hw hpending hadmits
  refine ⟨.answer target r, s', rfl, Option.ite_none_right_eq_some.mpr ⟨?_, ?_⟩⟩
  · simpa only [calm, hw, Option.bind_some, hpending, List.head?_cons, Option.all_some] using hcalm
  · simp only [step, hs.running, Bool.false_eq_true, if_false]
    exact hs'

theorem receiving_progress (hs : Calm fmt ndebug handlers s owner) {w : World}
    (hw : s.operations target = some w)
    (hasks : Asks fmt.toLayout ndebug s.queue (owner target) w)
    (hany : owner target = none → ∃ e ∈ s.queue, e.delivery = .waiting) :
    ∃ l s', quiet l = true ∧ (calmSystem fmt ndebug handlers).step s l = some s' := by
  obtain ⟨-, c, h, hpending, hlength⟩ := hs.waits target w hw
  refine answer_progress hs hw hpending ?_
  have hq := hs.invariant.queue
  generalize owner target = o at hasks hany
  cases hasks with
  | any =>
      obtain ⟨e, he, hdelivery⟩ := hany rfl
      rw [ReceiveRequest.start_eq, pending_recieve rfl] at hpending
      cases hpending
      refine exists_answer_any hq he hdelivery rfl (id_start _ _) ?_
      rw [(ReceiveRequest.requestCall_buffer (Nat.le_add_right _ _) fmt.initialSize_lt _ _).2]
      exact Nat.le_add_right _ _
  | again hbetween he hdelivery hid =>
      rw [pending_recieve hbetween.pending] at hpending
      cases hpending
      exact exists_answer_again hq he hdelivery rfl hid
        (ReceiveRequest.requestCall_buffer (hq.le_length he) (hq.length_lt he) _ _).2
  | @blind w hbetween =>
      rw [pending_recieve hbetween.pending] at hpending
      cases hpending
      have hzero : (w.buffer.prepare 0).spare.length = 0 := DynamicBuffer.length_spare_prepare _ _
      exact absurd (congrArg UInt32.ofNat hzero) hlength
  | aborted hnil _ =>
      rw [hnil] at hpending
      cases hpending

/-- The receive that waits for the next request. -/
theorem exists_receiving (hs : Calm fmt ndebug handlers s owner)
    (hqueued : s.controller.queued = []) :
    ∃ rq w, s.operations rq = some w ∧ Asks fmt.toLayout ndebug s.queue (owner rq) w := by
  have hreceives := hs.invariant.controller.receives
  rw [ControllerIsolation.receives, ControllerIsolation.outstanding, hqueued, List.map_nil,
    List.append_nil] at hreceives
  obtain ⟨op, hop, hreceive⟩ := List.countP_pos_iff.mp (by omega :
    0 < s.controller.inKernel.countP fun op => ControllerIsolation.isReceive op.call)
  obtain ⟨stage, hstage, hstands⟩ := hs.invariant.stands op.target
  have hmem : op ∈ (stage.view handlers op.target).inKernel := by
    rw [← hstage]
    exact List.mem_filter.mpr ⟨hop, by simp⟩
  refine ⟨op.target, ?_⟩
  generalize owner op.target = o at hstands ⊢
  generalize s.operations op.target = w at hstands ⊢
  cases hstands with
  | receiving hasks => exact ⟨_, rfl, hasks⟩
  | readingBody | sending =>
      rw [List.mem_singleton.mp hmem] at hreceive
      cases hreceive
  | _ => cases hmem

/-- The request of a context goes on, or is answered. -/
theorem owned_progress (hs : Calm fmt ndebug handlers s owner) (hqueued : s.controller.queued = [])
    {e : Entry} (he : e ∈ s.queue) (hunanswered : ¬ Answered fmt handlers s e) {rq : Nat}
    (howned : owner rq = some (e.id fmt.toLayout)) :
    ∃ l s', quiet l = true ∧ (calmSystem fmt ndebug handlers).step s l = some s' := by
  obtain ⟨stage, hstage, hstands⟩ := hs.invariant.stands rq
  have hq := hs.invariant.queue
  have hempty : (stage.view handlers rq).queued = [] := by
    rw [← hstage]
    exact (congrArg (List.filter _) hqueued).trans List.filter_nil
  have hkernel : s.controller.inKernel.find? (·.target = rq) =
      (stage.view handlers rq).inKernel.head? := by
    rw [ControllerView.head?_inKernel, hstage]
  have hsends : (stage.view handlers rq).sends = s.controller.sends.filter (·.request = rq) :=
    (congrArg ControllerView.View.sends hstage).symm
  have hhandled : (stage.view handlers rq).handled =
      s.controller.handled.filter (·.1.request = rq) :=
    (congrArg ControllerView.View.handled hstage).symm
  generalize hworld : s.operations rq = w at hstands
  generalize ho : owner rq = o at hstands howned
  cases hstands with
  | unused | failed | refused => cases howned
  | receiving hasks =>
      refine receiving_progress hs hworld (ho.symm ▸ hasks) fun hnone => ?_
      rw [ho, howned] at hnone
      cases hnone
  | received | bodyRead | sent => cases hempty
  | @readingBody e' w rest he' hdelivery hreceiving hpending =>
      obtain ⟨-, c, h, hpending', hlength⟩ := hs.waits rq w hworld
      obtain ⟨hapi, hid⟩ := call_of_receiving hreceiving hpending'
      exact answer_progress hs hworld hpending'
        (exists_answer_body hq he' hdelivery hapi hid hlength)
  | dropped f data _ _ =>
      have hmem : (Closure.receiveBody rq, Outcome.receiveBody (some f) data) ∈
          s.controller.handled := by
        refine List.mem_of_mem_filter (p := (·.1.request = rq)) ?_
        rw [← hhandled]
        exact List.mem_cons_of_mem _ List.mem_cons_self
      exact absurd (List.mem_append_left _ hmem) (hs.whole rq f data)
  | @sending e' captured copy he' _ =>
      let op := ControllerIsolation.sendOperation handlers rq (fmt.request e'.header) e'.body
        captured copy
      have hfind : s.controller.inKernel.find? (·.target = rq) = some op := hkernel
      have hcalm : calm s (.sent rq none) = true := rfl
      have hstep : ∃ s', step fmt ndebug handlers s (.sent rq none) = some s' := by
        simp only [step, hs.running, Controller.step, hfind]
        exact ⟨_, rfl⟩
      obtain ⟨s', hs'⟩ := hstep
      exact ⟨.sent rq none, s', rfl, Option.ite_none_right_eq_some.mpr ⟨hcalm, hs'⟩⟩
  | @finished e' captured copy error he' _ =>
      refine absurd ?_ hunanswered
      have hsame : e' = e := hq.eq_of_id he' he (Option.some.inj howned)
      subst hsame
      let send : Controller.Send := ⟨rq, (fmt.request e'.header).requestId,
        (ownResponse handlers captured (fmt.request e'.header) e'.body).resp.contents⟩
      have hsend : send ∈ s.controller.sends := by
        refine List.mem_of_mem_filter (p := (·.request = rq)) ?_
        rw [← hsends]
        exact List.mem_cons_self
      exact ⟨send, hsend, fmt.requestId_request _ (hq.le_length he), captured,
        Controller.responds_respond _ _ _ _⟩

theorem calm_progress [Inhabited Ω] (hs : Calm fmt ndebug handlers s owner)
    (hne : ¬ AllAnswered fmt handlers s) :
    ∃ l s', quiet l = true ∧ (calmSystem fmt ndebug handlers).step s l = some s' := by
  have hstep : ∀ l : Label Ω, calm s l = true → quiet l = true →
      (∃ s', step fmt ndebug handlers s l = some s') →
      ∃ l s', quiet l = true ∧ (calmSystem fmt ndebug handlers).step s l = some s' := by
    rintro l hcalm hquiet ⟨s', hs'⟩
    exact ⟨l, s', hquiet, Option.ite_none_right_eq_some.mpr ⟨hcalm, hs'⟩⟩
  cases hrunning : s.controller.running with
  | some closure =>
      refine hstep .finish rfl rfl ⟨{ s with controller := { s.controller with running := none } }, ?_⟩
      simp [step, hs.running, Controller.step, hrunning]
  | none =>
      rcases hqueued : s.controller.queued with _ | ⟨⟨op, o⟩, rest⟩
      · obtain ⟨e, he, hunanswered⟩ : ∃ e ∈ s.queue, ¬ Answered fmt handlers s e := by
          by_contra hall
          exact hne fun e he => by_contra fun h => hall ⟨e, he, h⟩
        by_cases hdelivery : e.delivery = .waiting
        · obtain ⟨rq, w, hw, hasks⟩ := exists_receiving hs hqueued
          exact receiving_progress hs hw hasks fun _ => ⟨e, he, hdelivery⟩
        · obtain ⟨rq, howned⟩ := hs.served e he hdelivery
          exact owned_progress hs hqueued he hunanswered howned
      · have hop : (op, o) ∈ s.controller.queued := by
          rw [hqueued]
          exact List.mem_cons_self
        obtain ⟨c, hc⟩ :=
          ControllerIsolation.run_enabled hs.invariant.controller hrunning hop default
        refine hstep (.run op.target default) rfl rfl ?_
        simp only [step, hs.running, Bool.false_eq_true, if_false, hc, Option.map_some]
        exact ⟨_, rfl⟩

end Progress

/-- The steps there can be for the requests that have arrived. -/
def budget (s : State Ω) : Nat := (s.queue.map fun e => e.body.length + 10).sum

section Main

variable {fmt : Format} {ndebug : Bool} {handlers : Handlers Ω} {s s' : State Ω}
  {owner : Nat → Option RequestId}

theorem arrivals_after (q : Queue) (L : Layout) (c : Call) (r : Report) :
    (q.after L c r).map Entry.toArrival = q.map Entry.toArrival := by
  unfold Queue.after
  split
  · unfold Queue.afterHeader
    split
    · exact arrivals_update
    · split
      · exact arrivals_update
      · rfl
  · unfold Queue.afterBody
    split
    · exact arrivals_update
    · rfl

theorem arrivals_step {l : Label Ω} (hl : quiet l = true)
    (h : step fmt ndebug handlers s l = some s') :
    s'.queue.map Entry.toArrival = s.queue.map Entry.toArrival := by
  obtain ⟨-, h⟩ := Option.ite_none_left_eq_some.mp h
  cases l with
  | arrive a => cases hl
  | answer target r =>
      obtain ⟨w, c, h', rest, -, -, -, ⟨-, rfl⟩ | ⟨ec, len, more, -, hs'⟩⟩ := answer_eq_some h
      · exact arrivals_after _ _ _ _
      · obtain ⟨op, o, controller, -, -, -, rfl⟩ := complete_eq_some hs'
        exact arrivals_after _ _ _ _
  | sent target error =>
      obtain ⟨controller, -, rfl⟩ := Option.map_eq_some_iff.mp h
      rfl
  | run target captured =>
      obtain ⟨controller, -, rfl⟩ := Option.map_eq_some_iff.mp h
      rw [(frame_launch fmt ndebug _ _).2.1]
  | finish =>
      obtain ⟨controller, -, rfl⟩ := Option.map_eq_some_iff.mp h
      rfl

theorem budget_eq (s : State Ω) :
    budget s = ((s.queue.map Entry.toArrival).map fun a => a.body.length + 10).sum := by
  rw [budget, List.map_map]
  rfl

theorem weight_le_budget_step (hs : Calm fmt ndebug handlers s owner) (hle : weight s ≤ budget s)
    {l : Label Ω} (h : (calmSystem fmt ndebug handlers).step s l = some s') :
    weight s' ≤ budget s' := by
  obtain ⟨-, hless⟩ := calm_step hs h
  obtain ⟨-, h⟩ := Option.ite_none_right_eq_some.mp h
  cases hl : quiet l with
  | true =>
      rw [budget_eq, arrivals_step hl h, ← budget_eq]
      have := hless hl
      omega
  | false =>
      cases l with
      | arrive a =>
          obtain ⟨-, h⟩ := Option.ite_none_left_eq_some.mp h
          obtain ⟨q, hq, rfl⟩ := Option.map_eq_some_iff.mp h
          obtain ⟨-, rfl⟩ := hs.invariant.queue.arrive hq
          simp only [weight, budget, List.map_append, List.sum_append, List.map_cons, List.map_nil,
            List.sum_cons, List.sum_nil, entryWeight] at hle ⊢
          omega
      | answer | sent | run | finish => cases hl

theorem calm_start (fmt : Format) (ndebug : Bool) (handlers : Handlers Ω) :
    Calm fmt ndebug handlers (start fmt ndebug) fun _ => none := by
  refine ⟨invariant_start fmt ndebug handlers, ?_, ?_, ?_, rfl⟩
  · intro e he
    cases he
  · refine waits_launch fmt ndebug _ ?_
    intro rq w hw
    cases hw
  · intro rq f data hx
    cases hx

/-- Whatever has arrived by then, and however far the controller has got: if no
more requests arrive, the responses to all of them are sent within so many
steps. -/
theorem httpServer_answers [Inhabited Ω] (fmt : Format) (ndebug : Bool) (handlers : Handlers Ω)
    (labels : List (Label Ω)) (s : State Ω)
    (hrun : (calmSystem fmt ndebug handlers).run (start fmt ndebug) labels = some s) :
    ((calmSystem fmt ndebug handlers).restrict quiet).Within (AllAnswered fmt handlers)
      (budget s) s := by
  obtain ⟨⟨owner, hs⟩, hle⟩ :=
    System.run_preserves (P := fun s => (∃ owner, Calm fmt ndebug handlers s owner) ∧
      weight s ≤ budget s) (by
        rintro s l s' ⟨⟨owner, hs⟩, hle⟩ h
        exact ⟨(calm_step hs h).1, weight_le_budget_step hs hle h⟩)
      ⟨⟨_, calm_start fmt ndebug handlers⟩, Nat.le_refl _⟩ hrun
  refine System.Within.weaken hle (System.within_of_measure
    (I := fun s => ∃ owner, Calm fmt ndebug handlers s owner) weight ?_ ?_ ⟨owner, hs⟩)
  · rintro s ⟨owner, hs⟩ hne
    obtain ⟨l, s', hquiet, hl⟩ := calm_progress hs hne
    exact ⟨l, s', System.step_restrict.mpr ⟨hquiet, hl⟩⟩
  · rintro s l s' ⟨owner, hs⟩ - hl
    obtain ⟨hquiet, hl⟩ := System.step_restrict.mp hl
    obtain ⟨hnext, hless⟩ := calm_step hs hl
    exact ⟨hnext, hless hquiet⟩

end Main

/-- `GET` of the full URL "h/a". -/
def getRequest (id : UInt8) (body : Bytes) : Arrival where
  header := ((((List.replicate 864 0).set 16 id).set 36 4).set 64 6 |>.set 72 96 |>.set 73 3) ++
    [104, 0, 47, 0, 97, 0]
  body

/-- Two requests, the second one while the first one is received. -/
theorem httpServer_answers_two : ∃ s,
    (calmSystem .x64 false ControllerIsolation.echoHandlers).run (start .x64 false)
      [.arrive (getRequest 7 [1, 2, 3]),
        .answer 0 (packet 0 (getRequest 7 [1, 2, 3]).header 870),
        .arrive (getRequest 8 [])] = some s ∧
    ((calmSystem .x64 false ControllerIsolation.echoHandlers).restrict quiet).Within
      (AllAnswered .x64 ControllerIsolation.echoHandlers) (budget s) s := by
  have hrun : ((calmSystem .x64 false ControllerIsolation.echoHandlers).run (start .x64 false)
      [.arrive (getRequest 7 [1, 2, 3]),
        .answer 0 (packet 0 (getRequest 7 [1, 2, 3]).header 870),
        .arrive (getRequest 8 [])]).isSome = true := by
    decide +kernel
  obtain ⟨s, hs⟩ := Option.isSome_iff_exists.mp hrun
  exact ⟨s, hs, httpServer_answers .x64 false _ _ s hs⟩

end Winasio.HttpProgress
