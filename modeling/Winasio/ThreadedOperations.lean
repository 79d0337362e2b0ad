import Winasio.Client
import Winasio.ResponseBody
import Winasio.ThreadProgress

/-!
The composed operations on a request handle run by the two threads:
`async_exec` refines the sequential client, and `async_read_body` reads the
whole response, on every interleaving.
-/

namespace Winasio.ThreadedOperations

open Winasio.Transition
open Winasio.ClientPayload
open Winasio.RequestContext
open Winasio.Operation
open Winasio.ReadBody
open Winasio.ResponseBody
open Winasio.Client
open Winasio.RequestThreads
open Winasio.ThreadProgress

universe u

/-- What WinHTTP may answer, depending on what it has answered so far. -/
structure Environment (ρ : Type u) where
  admits : ρ → StepCall → Outcome → Bool
  admits_failed : ∀ r c e, admits r c (.failed e) = admits r c (.requestError e)
  after : ρ → StepCall → Outcome → ρ

def anyAnswer : Environment Unit where
  admits _ _ _ := true
  admits_failed _ _ _ := rfl
  after _ _ _ := ()

def responding : Environment Response where
  admits := Response.admits
  admits_failed _ c _ := by cases c <;> rfl
  after := Response.after

def resume (w : World) (args : ErrorCode × Option Nat) : World :=
  match w.pending with
  | [] => w
  | (_, h) :: rest => h.invoke args.1 (args.2.getD 0) { w with pending := rest }

theorem pending_settle (w : World) (c : StepCall) (o : Outcome) :
    (w.settle c o).pending = w.pending := by
  cases o with
  | failed e => rfl
  | requestError e => rfl
  | completed len data =>
      change (w.store c data).pending = w.pending
      rw [World.store_eq]

/-- The operations as a program of the threads. The context in `World` is the
one the calls leave in sequence; the handlers get theirs from the threads. -/
def operations {ρ : Type u} (E : Environment ρ) : Program (World × ρ) StepCall where
  kind := StepCall.kind
  completion c len data := c.completion len data
  completion_matches := matches_completion
  waiting s := s.1.pending.head?.map Prod.fst
  admits s c o := E.admits s.2 c o
  admits_failed s c e := E.admits_failed s.2 c e
  store s c o := (s.1.settle c o, E.after s.2 c o)
  waiting_store s c o := by rw [pending_settle]
  resume s args := (resume s.1 args, s.2)

/-- Between two handlers there is at most one call, the last one. -/
inductive Started : World → Prop
  | idle {w : World} : w.pending = [] → Started w
  | start {w : World} (c : StepCall) (h : Handler) : w.pending = [] → Started (w.start c h)

theorem started_invoke (h : Handler) (ec : ErrorCode) (len : Nat) {w : World}
    (hw : w.pending = []) : Started (h.invoke ec len w) := by
  induction h generalizing ec len w with
  | token => exact .idle hw
  | asyncReadBodyOp state self ih =>
      unfold Handler.invoke
      split
      · exact ih ec len hw
      · cases state with
        | idle => exact .start _ _ hw
        | queryData => exact .start _ _ hw
        | readData =>
            dsimp only
            split
            · exact .start _ _ hw
            · exact ih ec 0 hw
        | done => exact .idle hw
  | asyncExecOp args state self ih =>
      unfold Handler.invoke
      split
      · exact ih ec len hw
      · cases state with
        | idle => exact .start _ _ hw
        | send => exact .start _ _ hw
        | receiveResponse => exact .start _ _ hw
        | done => exact ih ec 0 hw
  | asyncReadSomeOp size state self ih =>
      unfold Handler.invoke
      split
      · exact ih ec len hw
      · cases state with
        | idle => exact .start _ _ hw
        | queryData => exact .start _ _ hw
        | readData => exact ih ec len hw
        | done => exact .idle hw

theorem settle_start {w : World} (hw : w.pending = []) (c : StepCall) (h : Handler)
    (o : Outcome) :
    (w.start c h).settle c o = { w.answered c o with pending := [(c, h)] } := by
  have hstart : (.setState c.kind.state :: stepReset).foldl AsioRequestContext.exec w.ctx =
      ⟨c.kind.state, false, .success, 0⟩ := rfl
  cases o with
  | failed e =>
      simp [World.start, hw, hstart, World.settle, afterApi, World.answered, stepComplete,
        AsioRequestContext.exec, Outcome.result, Outcome.stateAfter]
  | requestError e =>
      have hrun := basicAsioAsyncCallback_of_matches (Operation.matches_requestError c e)
      simp [World.start, hw, hstart, World.settle, World.notify, hrun, World.answered,
        stepComplete, AsioRequestContext.exec, Outcome.result, Outcome.stateAfter,
        Notification.result]
  | completed len data =>
      have hrun := basicAsioAsyncCallback_of_matches (matches_completion c len data)
      have hstore : (w.start c h).store c data =
          { w.store c data with
            ctx := ⟨c.kind.state, false, .success, 0⟩
            calls := w.calls ++ [.step c]
            pending := [(c, h)] } := by
        rw [World.start, hw, hstart]
        rcases c with _ | _ | _ | ⟨_ | _, n⟩ <;> rfl
      have hcalls : (w.store c data).calls = w.calls := by rw [World.store_eq]
      rw [World.settle, hstore]
      simp [World.notify, hrun, World.answered, stepComplete, AsioRequestContext.exec,
        Outcome.result, Outcome.stateAfter, hcalls]

theorem pending_answered {w : World} (hw : w.pending = []) (c : StepCall) (o : Outcome) :
    (w.answered c o).pending = [] := by
  cases o with
  | failed e => exact hw
  | requestError e => exact hw
  | completed len data =>
      change (w.store c data).pending = []
      rw [World.store_eq]
      exact hw

section Operations

variable {ρ : Type u} (E : Environment ρ)

theorem result_operations (c : StepCall) (o : Outcome) :
    (operations E).result c o = o.result c := by
  cases o <;> rfl

theorem waiting_start {w : World} (hw : w.pending = []) (c : StepCall) (h : Handler) (r : ρ) :
    (operations E).waiting (w.start c h, r) = some c := by
  change (w.pending ++ [(c, h)]).head?.map Prod.fst = some c
  rw [hw]
  rfl

/-- An answer to the program by itself is the answer of the sequential
world. -/
theorem handle_start {w : World} (hw : w.pending = []) (c : StepCall) (h : Handler) (r : ρ)
    (o : Outcome) :
    (operations E).handle (w.start c h, r) c o = ((w.start c h).answer o, E.after r c o) := by
  change (resume ((w.start c h).settle c o) (c.kind.handlerArgs ((operations E).result c o)),
    E.after r c o) = _
  have hpending : { w.answered c o with pending := [] } = w.answered c o := by
    rw [← pending_answered hw c o]
  rw [result_operations, settle_start hw, World.answer_start hw, ← handlerArgs_getD c o]
  change (Handler.invoke h _ _ { w.answered c o with pending := [] }, _) = _
  rw [hpending]
  rfl

theorem answer_idle {w : World} (hw : w.pending = []) (r : ρ) (o : Outcome) :
    (operations E).answer (w, r) o = none := by
  change ((w.pending.head?.map Prod.fst).bind _) = none
  rw [hw]
  rfl

theorem answer_start {w : World} (hw : w.pending = []) (c : StepCall) (h : Handler) (r : ρ)
    (o : Outcome) :
    (operations E).answer (w.start c h, r) o =
      if E.admits r c o then some ((w.start c h).answer o, E.after r c o) else none := by
  rw [Program.answer, waiting_start E hw, Option.bind_some, handle_start E hw]
  rfl

variable {E}

/-- The program by itself is `World.run`. -/
theorem run_operations {w w' : World} {r r' : ρ} {script : List Outcome} (hw : Started w)
    (hrun : (operations E).sequential.run (w, r) script = some (w', r')) :
    Started w' ∧ w' = w.run script := by
  induction script generalizing w r with
  | nil =>
      cases hrun
      exact ⟨hw, rfl⟩
  | cons o script ih =>
      obtain ⟨s, hstep, hrest⟩ := System.run_cons_eq_some.mp hrun
      change (operations E).answer (w, r) o = some s at hstep
      cases hw with
      | idle hw =>
          rw [answer_idle E hw] at hstep
          cases hstep
      | start c h hw =>
          rw [answer_start E hw] at hstep
          cases (Option.ite_none_right_eq_some.mp hstep).2
          refine ih ?_ hrest
          rw [World.answer_start hw]
          exact started_invoke h _ _ (pending_answered hw c o)

/-- What the threads have made of the program is what it is by itself, up to
an answer that has been stored and not handled. -/
theorem at_operations {w : World} {r : ρ} {script : List Outcome} {t : Threads (World × ρ)}
    (ht : At (operations E) (w, r) script t) :
    ∃ rest : Option Outcome, t.answers = script ++ rest.toList ∧
      (rest = none ∧ t.program.1 = w ∨
        ∃ o c h, rest = some o ∧ w.pending.head? = some (c, h) ∧ t.program.1 = w.settle c o) := by
  obtain ⟨rest, hanswers, hstands⟩ := ht.stands
  refine ⟨rest, hanswers, ?_⟩
  obtain ⟨p, s', answers⟩ := t
  dsimp only at hstands ⊢
  cases hstands with
  | finished | called => exact .inl ⟨rfl, rfl⟩
  | @answered _ c o hw _ _ | @lost _ c o hw _ _ _ =>
      obtain ⟨⟨c', h⟩, hhead, rfl⟩ := Option.map_eq_some_iff.mp hw
      exact .inr ⟨_, _, h, rfl, hhead, rfl⟩

end Operations

theorem answered_eq (w : World) (c : StepCall) (o : Outcome) :
    w.answered c o = { w with
      ctx := (w.answered c o).ctx
      buffer := (w.answered c o).buffer
      raw := (w.answered c o).raw
      calls := w.calls ++ [.step c] } := by
  rcases o with e | e | ⟨len, data⟩
  · rfl
  · rfl
  · rcases c with _ | _ | _ | ⟨_ | _, n⟩ <;> rfl

theorem committed_answered (w : World) (c : StepCall) (o : Outcome) :
    (w.answered c o).buffer.committed = w.buffer.committed := by
  rcases o with e | e | ⟨len, data⟩
  · rfl
  · rfl
  · rcases c with _ | _ | _ | ⟨_ | _, n⟩ <;> rfl

/-- Where a call stands for the sequential client it does so with its answer
stored too: the bytes are behind the committed ones. -/
theorem refines_settle {w₀ w : World} {c : StepCall} {h : Handler} {r : SeqRun}
    (hw : Started w) (hhead : w.pending.head? = some (c, h)) (hr : Refines w₀ w.runPosted r)
    (o : Outcome) : Refines w₀ (w.settle c o).runPosted r := by
  cases hw with
  | idle hw => simp [hw] at hhead
  | @start w c' h' hw =>
      have hpending : (w.start c' h').pending = [(c', h')] := by simp [World.start, hw]
      rw [hpending] at hhead
      cases hhead
      have houtstanding := hr.outstanding
      change (w.start c h).pending.length = _ at houtstanding
      rw [hpending] at houtstanding
      rw [settle_start hw, answered_eq]
      refine ⟨hr.calls, hr.handled, houtstanding, ?_, fun hresult => ?_, hr.assertsHold⟩
      · exact (committed_answered w c o).trans hr.committed
      · simp [hresult] at houtstanding

theorem pending_managedOpen (w : World) (a : OpenArgs) (sync : SyncOutcomes) (ec : ErrorCode) :
    (w.managedOpen a sync ec).1.pending = w.pending := by
  unfold World.managedOpen World.openRequest
  cases sync.openRequest with
  | error e =>
      simp only [e.failed, if_true]
      rfl
  | ok handle =>
      dsimp only
      split <;> rfl

theorem started_asyncExec (p : Payload) (connect : Nat) (sync : SyncOutcomes) {w : World}
    (hw : w.pending = []) : Started (asyncExec p connect sync w).2 := by
  have hopened := (pending_managedOpen w (openArgs p connect) sync .success).trans hw
  unfold asyncExec
  dsimp only
  split
  · exact .idle hopened
  · unfold secureAndExec
    split
    · dsimp only
      split
      · exact .idle hopened
      · exact started_invoke _ _ _ hopened
    · exact started_invoke _ _ _ hopened

/-- On every interleaving `async_exec` refines the sequential client, which
gets the answers of WinHTTP in the order they came; only the answer to a call
that is still outstanding may be missing. -/
theorem asyncExec_interleaved (p : Payload) (connect : Nat) (sync : SyncOutcomes)
    (handle : Option Nat) (ctx : AsioRequestContext) (buffer : DynamicBuffer UInt8)
    (labels : List Label) :
    let w : World := { handle, ctx, buffer }
    (threads (operations anyAnswer)).AllStates
      (fun t => t.protocol.assertsHold = true ∧ ∃ script rest, t.answers = script ++ rest ∧
        rest.length ≤ t.program.1.pending.length ∧
        Refines w t.program.1.runPosted (reference p connect handle sync script))
      (RequestThreads.start (operations anyAnswer) ((asyncExec p connect sync w).2, ()))
      labels := by
  intro w
  refine System.AllStates.of_invariant (fun _ _ _ => follows_step) (fun t ht => ?_)
    ⟨_, [], rfl, at_start _ _⟩ labels
  obtain ⟨⟨w', ⟨⟩⟩, script, hrun, hat⟩ := ht
  obtain ⟨hstarted, rfl⟩ := run_operations (started_asyncExec p connect sync rfl) hrun
  have hrefines := asyncExec_refines p connect sync script handle ctx buffer
  obtain ⟨rest, hanswers, hprogram⟩ := at_operations hat
  refine ⟨hat.phase.assertsHold, script, rest.toList, hanswers, ?_⟩
  rcases hprogram with ⟨rfl, hw⟩ | ⟨o, c, h, rfl, hhead, hw⟩
  · rw [hw]
    exact ⟨Nat.zero_le _, hrefines⟩
  · rw [hw, pending_settle]
    refine ⟨List.length_pos_of_mem (List.mem_of_mem_head? hhead), ?_⟩
    exact refines_settle hstarted hhead hrefines o

/-- The program by itself reads a body as the sequential world does. -/
theorem answer_responding {w : World} (hw : Started w) (r : Response) (o : Outcome) :
    (operations responding).answer (w, r) o = readBodySystem.step (w, r) o := by
  cases hw with
  | idle hw => rw [answer_idle _ hw, readBodySystem_of_pending_nil hw]
  | start c h hw =>
      rw [answer_start _ hw]
      change _ = r.respond _ o
      rw [Response.respond, show (World.start _ c h).pending = [(c, h)] by simp [World.start, hw]]
      rfl

theorem started_of_reading {initial : Bytes} {response : Response} {s : World × Response}
    (hs : Reading initial response s) : Started s.1 := by
  rcases hs with ⟨h⟩ | ⟨n, h, -⟩ | ⟨h⟩
  · exact .start _ _ h.pending
  · exact .start _ _ h.pending
  · exact .idle h.pending

/-- The program by itself reads the response within two answers for every
byte, and two at the end. -/
theorem within_bodyRead_sequential {initial : Bytes} {response : Response}
    {s : World × Response} (hs : Reading initial response s) :
    (operations responding).sequential.Within (fun s => BodyRead initial response s.1)
      (workload s.1 s.2) s := by
  refine System.within_of_measure (fun s => workload s.1 s.2) (fun s hs hdone => ?_)
    (fun s o s' hs _ h => ?_) hs
  · obtain ⟨o, s', h⟩ := reading_progress s hs hdone
    exact ⟨o, s', (answer_responding (started_of_reading hs) s.2 o).trans h⟩
  · exact reading_step hs ((answer_responding (started_of_reading hs) s.2 o).symm.trans h)

/-- The handler has not been called, or the response is in the buffer. -/
structure Receives (initial : Bytes) (response : Response) (t : Threads (World × Response)) :
    Prop where
  assertsHold : t.protocol.assertsHold = true
  committed : t.program.1.buffer.committed <+: initial ++ response.remaining
  handled : t.program.1.handled = [] ∨ BodyRead initial response t.program.1

theorem Underway.receives {initial : Bytes} {response r : Response} {w : World} {c : StepCall}
    {h : Handler} {script : List Outcome} {t : Threads (World × Response)}
    (hw : Underway initial response w r)
    (ht : At (operations responding) (w.start c h, r) script t) :
    Receives initial response t := by
  have hcommitted : w.buffer.committed <+: initial ++ response.remaining := ⟨_, hw.committed⟩
  have hasserts := ht.phase.assertsHold
  obtain ⟨rest, -, ⟨-, hprogram⟩ | ⟨o, c', h', -, hhead, hprogram⟩⟩ := at_operations ht
  · exact ⟨hasserts, hprogram ▸ hcommitted, .inl (hprogram ▸ hw.handled)⟩
  · rw [show (w.start c h).pending = [(c, h)] by simp [World.start, hw.pending]] at hhead
    cases hhead
    rw [settle_start hw.pending, answered_eq] at hprogram
    refine ⟨hasserts, ?_, .inl (hprogram ▸ hw.handled)⟩
    rw [hprogram]
    exact (committed_answered w c o).symm ▸ hcommitted

theorem BodyRead.program_eq {initial : Bytes} {response r : Response} {w : World}
    {script : List Outcome} {t : Threads (World × Response)}
    (hw : BodyRead initial response w) (ht : At (operations responding) (w, r) script t) :
    t.program.1 = w := by
  obtain ⟨rest, -, ⟨-, hprogram⟩ | ⟨o, c', h', -, hhead, -⟩⟩ := at_operations ht
  · exact hprogram
  · simp [hw.pending] at hhead

theorem receives_of_reading {initial : Bytes} {response : Response} {s : World × Response}
    {script : List Outcome} {t : Threads (World × Response)} (hs : Reading initial response s)
    (ht : At (operations responding) s script t) : Receives initial response t := by
  cases hs with
  | query hw => exact Underway.receives hw ht
  | read n hw hn => exact Underway.receives hw ht
  | done hw =>
      have hprogram := BodyRead.program_eq hw ht
      refine ⟨ht.phase.assertsHold, ⟨[], ?_⟩, .inr (hprogram ▸ hw)⟩
      rw [hprogram, hw.committed, List.append_nil]

theorem reading_run {initial : Bytes} {response : Response} {s s' : World × Response}
    {script : List Outcome} (hs : Reading initial response s)
    (hrun : (operations responding).sequential.run s script = some s') :
    Reading initial response s' :=
  System.run_preserves (P := Reading initial response) (fun s o _ hs h =>
    (reading_step hs ((answer_responding (started_of_reading hs) s.2 o).symm.trans h)).1) hs hrun

/-- On every interleaving `async_read_body` reads the response: what it has
committed is the beginning of it, the handler is called at its end, and if
WinHTTP keeps its promises that is after at most thirteen actions for every
answer. -/
theorem asyncReadBody_interleaved (response : Response) (handle : Option Nat)
    (ctx : AsioRequestContext) (buffer : DynamicBuffer UInt8) (labels : List Label) :
    let P := operations responding
    let w : World := { handle, ctx, buffer }
    let t₀ := RequestThreads.start P (w.asyncReadBody .token, response)
    (threads P).AllStates (Receives buffer.committed response) t₀ labels ∧
      (calmThreads P).Within (fun t => BodyRead buffer.committed response t.program.1)
        (13 * (2 * response.remaining.length + 3)) t₀ := by
  intro P w t₀
  have hw : w.pending = [] := rfl
  have hreading : Reading buffer.committed response (w.asyncReadBody .token, response) :=
    .query ⟨hw, rfl, rfl, rfl, rfl⟩
  constructor
  · refine System.AllStates.of_invariant (fun _ _ _ => follows_step) (fun t ht => ?_)
      ⟨_, [], rfl, at_start _ _⟩ labels
    obtain ⟨s, script, hrun, hat⟩ := ht
    exact receives_of_reading (reading_run hreading hrun) hat
  · have hstart : AtWork P (w.asyncReadBody .token, response) [] t₀ :=
      ⟨at_start P _, lively_issue rfl _ _⟩
    have hweight : weight t₀.protocol ≤ 13 := weight_issue_le _ _ rfl
    have hworkload := workload_query hw (.asyncReadBodyOp .queryData .token) response
    have hwithin := within_of_sequential (within_bodyRead_sequential hreading) hstart
    refine (hwithin.mono fun t ht => ?_).weaken ?_
    · obtain ⟨s, script, hdone, hat⟩ := ht
      exact BodyRead.program_eq hdone hat.toAt ▸ hdone
    · change _ + 13 * workload (w.asyncQueryDataAvailable _) response ≤ _
      omega

end Winasio.ThreadedOperations
