import Mathlib.Order.Basic
import Winasio.Transition
import Winasio.ReadBody

/-!
The two ways of reading a response body, `async_read_body` and a loop over
`async_read_some`, against a response that WinHTTP delivers in pieces.
-/

namespace Winasio.ResponseBody

open Winasio.Transition
open Winasio.RequestContext
open Winasio.Operation
open Winasio.ReadBody

/-- What WinHTTP has not delivered of a response yet, and the error it fails
with behind that, if it does. -/
structure Response where
  remaining : Bytes
  ending : Option Failure
  deriving DecidableEq, Repr

namespace Response

def Ended (r : Response) : Prop := r.remaining = [] ∧ r.ending = none

instance (r : Response) : Decidable r.Ended :=
  inferInstanceAs (Decidable (r.remaining = [] ∧ r.ending = none))

def result (r : Response) : ErrorCode := r.ending.elim .success Subtype.val

/-- The answers of WinHTTP: a query announces 0 bytes only at the end of the
body, a read of some bytes delivers none only there, and a call fails only
behind the last byte of a response that fails. -/
def admits (r : Response) : StepCall → Outcome → Bool
  | .queryDataAvailable, .completed n _ => decide (n = 0 → r.Ended)
  | .readData _ n, .completed _ data =>
      (data.take n.toNat).isPrefixOf r.remaining &&
        decide (n ≠ 0 → data.take n.toNat = [] → r.Ended)
  | .sendRequest _, .completed _ _ | .receiveResponse, .completed _ _ => true
  | _, .failed e | _, .requestError e => decide (r.remaining = [] ∧ r.ending = some e)

def after (r : Response) (c : StepCall) : Outcome → Response
  | .completed _ data => { r with remaining := r.remaining.drop (c.delivered data).length }
  | .failed _ | .requestError _ => r

theorem after_of_fails {o : Outcome} {e : Failure} (h : o.Fails e) (r : Response)
    (c : StepCall) : r.after c o = r := by
  rcases h with rfl | rfl <;> rfl

def respond (r : Response) (w : World) (o : Outcome) : Option (World × Response) :=
  match w.pending with
  | [] => none
  | (c, _) :: _ => if r.admits c o then some (w.answer o, r.after c o) else none

theorem respond_of_pending_nil {w : World} (hw : w.pending = []) (r : Response) (o : Outcome) :
    r.respond w o = none := by
  simp [respond, hw]

theorem respond_start_eq_some {w : World} (hw : w.pending = []) {r : Response} {c : StepCall}
    {h : Handler} {o : Outcome} {s : World × Response} :
    r.respond (w.start c h) o = some s ↔
      r.admits c o = true ∧ ((w.start c h).answer o, r.after c o) = s := by
  simp [respond, World.start, hw]

theorem admits_query {r : Response} {o : Outcome} (h : r.admits .queryDataAvailable o = true) :
    (∃ e, o.Fails e ∧ r.remaining = [] ∧ r.ending = some e) ∨
      ∃ n data, o = .completed n data ∧ (n = 0 → r.Ended) := by
  rcases o with e | e | ⟨n, data⟩
  · exact .inl ⟨e, .inl rfl, by simpa [admits] using h⟩
  · exact .inl ⟨e, .inr rfl, by simpa [admits] using h⟩
  · exact .inr ⟨n, data, rfl, of_decide_eq_true h⟩

theorem admits_read {r : Response} {d : Destination} {n : UInt32} {o : Outcome}
    (h : r.admits (.readData d n) o = true) :
    (∃ e, o.Fails e ∧ r.remaining = [] ∧ r.ending = some e) ∨
      ∃ len data, o = .completed len data ∧ data.take n.toNat <+: r.remaining ∧
        (n ≠ 0 → data.take n.toNat = [] → r.Ended) := by
  rcases o with e | e | ⟨len, data⟩
  · exact .inl ⟨e, .inl rfl, by simpa [admits] using h⟩
  · exact .inl ⟨e, .inr rfl, by simpa [admits] using h⟩
  · obtain ⟨hpre, hend⟩ := Bool.and_eq_true_iff.mp h
    exact .inr ⟨len, data, rfl, List.isPrefixOf_iff_prefix.mp hpre, of_decide_eq_true hend⟩

/-- A read that delivers nothing is at the end, also if nothing was announced. -/
theorem ended_of_take_nil {r : Response} {n : UInt32} {data : Bytes} (hn : n = 0 → r.Ended)
    (hend : n ≠ 0 → data.take n.toNat = [] → r.Ended) (hnil : data.take n.toNat = []) :
    r.Ended := by
  rcases Decidable.em (n = 0) with hzero | hzero
  · exact hn hzero
  · exact hend hzero hnil

theorem after_read {r : Response} {n : UInt32} {data rest : Bytes} (d : Destination)
    (len : UInt32) (hrest : data.take n.toNat ++ rest = r.remaining) :
    r.after (.readData d n) (.completed len data) = { r with remaining := rest } := by
  simp [after, StepCall.delivered, ← hrest]

theorem exists_admits_query (r : Response) : ∃ o, r.admits .queryDataAvailable o = true := by
  by_cases hend : r.Ended
  · exact ⟨.completed 0 [], by simp [admits, hend]⟩
  · exact ⟨.completed 1 [], by simp [admits]⟩

theorem exists_admits_read (r : Response) (d : Destination) (n : UInt32) :
    ∃ o, r.admits (.readData d n) o = true := by
  rcases hr : r.remaining with _ | ⟨x, xs⟩
  · cases he : r.ending with
    | none => exact ⟨.completed 0 [], by simp [admits, Ended, hr, he]⟩
    | some e => exact ⟨.failed e, by simp [admits, hr, he]⟩
  · refine ⟨.completed 1 [x], ?_⟩
    rcases hn : n.toNat with _ | k
    · have : n = 0 := UInt32.toNat_inj.mp hn
      simp [admits, this]
    · simp [admits, hr, hn]

end Response

def readBodySystem : System (World × Response) Outcome :=
  ⟨fun s o => s.2.respond s.1 o⟩

/-- How many WinHTTP calls there can still be: two for every byte, and a query
and a read at the end. -/
def workload (w : World) (r : Response) : Nat :=
  2 * r.remaining.length +
    match w.pending with
    | [] => 0
    | (.queryDataAvailable, _) :: _ => 2
    | _ :: _ => 1

theorem workload_of_pending_nil {w : World} (hw : w.pending = []) (r : Response) :
    workload w r = 2 * r.remaining.length := by
  simp [workload, hw]

theorem workload_query {w : World} (hw : w.pending = []) (h : Handler) (r : Response) :
    workload (w.asyncQueryDataAvailable h) r = 2 * r.remaining.length + 2 := by
  simp [workload, World.asyncQueryDataAvailable, World.start, hw]

theorem workload_read {w : World} (hw : w.pending = []) (d : Destination) (n : UInt32)
    (h : Handler) (r : Response) :
    workload (w.start (.readData d n) h) r = 2 * r.remaining.length + 1 := by
  simp [workload, World.start, hw]

/-- The world behind the calls of an operation that is under way: the bytes it
has committed are those that are missing from the response. -/
structure Underway (initial : Bytes) (response : Response) (w : World) (r : Response) :
    Prop where
  pending : w.pending = []
  handled : w.handled = []
  committed : w.buffer.committed ++ r.remaining = initial ++ response.remaining
  ending : r.ending = response.ending
  assertsHold : w.assertsHold = true

/-- The operation has called its handler, with the result of the response, and
committed the response. -/
structure BodyRead (initial : Bytes) (response : Response) (w : World) : Prop where
  pending : w.pending = []
  handled : w.handled = [(response.result, 0)]
  committed : w.buffer.committed = initial ++ response.remaining
  assertsHold : w.assertsHold = true

inductive Reading (initial : Bytes) (response : Response) : World × Response → Prop
  | query {w : World} {r : Response} : Underway initial response w r →
      Reading initial response (w.asyncReadBody .token, r)
  | read {w : World} {r : Response} (n : UInt32) : Underway initial response w r →
      (n = 0 → r.Ended) → Reading initial response
        (w.start (.readData .dynamicBuffer n) (.asyncReadBodyOp .readData .token), r)
  | done {w : World} {r : Response} : BodyRead initial response w →
      Reading initial response (w, r)

theorem Underway.bodyRead {initial : Bytes} {response r : Response} {w : World} {ec : ErrorCode}
    (h : Underway initial response w r) (hremaining : r.remaining = []) (hec : r.result = ec) :
    BodyRead initial response (Handler.token.invoke ec 0 w) where
  pending := h.pending
  handled := by
    change w.handled ++ [(ec, 0)] = _
    rw [h.handled, ← hec, Response.result, Response.result, h.ending]
    rfl
  committed := by
    have := h.committed
    rwa [hremaining, List.append_nil] at this
  assertsHold := h.assertsHold

theorem Response.result_of_ending {r : Response} {e : Failure} (h : r.ending = some e) :
    r.result = e.val := by
  rw [Response.result, h]
  rfl

theorem Response.Ended.result {r : Response} (h : r.Ended) : r.result = .success := by
  rw [Response.result, h.2]
  rfl

theorem reading_query {initial : Bytes} {response r : Response} {w : World} {o : Outcome}
    (h : Underway initial response w r) (ho : r.admits .queryDataAvailable o = true) :
    let s' := ((w.asyncReadBody .token).answer o, r.after .queryDataAvailable o)
    Reading initial response s' ∧ workload s'.1 s'.2 < 2 * r.remaining.length + 2 := by
  rcases Response.admits_query ho with ⟨e, hfails, hremaining, hending⟩ | ⟨n, data, rfl, hn⟩
  · have hanswered : Underway initial response (w.answered .queryDataAvailable o) r := by
      rcases hfails with rfl | rfl <;>
        exact ⟨h.pending, h.handled, h.committed, h.ending, h.assertsHold⟩
    have hdone := hanswered.bodyRead hremaining (Response.result_of_ending hending)
    intro s'
    have hs' : s' = (Handler.token.invoke e.val 0 (w.answered .queryDataAvailable o), r) := by
      simp only [s', Response.after_of_fails hfails, answer_query_of_fails h.pending _ hfails]
    rw [hs']
    exact ⟨.done hdone, (workload_of_pending_nil hdone.pending r).trans_lt (by omega)⟩
  · have hafter : r.after .queryDataAvailable (.completed n data) = r := rfl
    have hqueried : Underway initial response (queried w n data) r :=
      ⟨h.pending, h.handled, h.committed, h.ending, h.assertsHold⟩
    intro s'
    have hs' : s' = ((queried w n data).start (.readData .dynamicBuffer n)
        (.asyncReadBodyOp .readData .token), r) := by
      simp only [s', hafter, answer_query h.pending]
    rw [hs']
    exact ⟨.read n hqueried hn, (workload_read hqueried.pending _ n _ r).trans_lt (by omega)⟩

theorem reading_read {initial : Bytes} {response r : Response} {w : World} {n : UInt32}
    {o : Outcome} (h : Underway initial response w r) (hn : n = 0 → r.Ended)
    (ho : r.admits (.readData .dynamicBuffer n) o = true) :
    let s' := ((w.start (.readData .dynamicBuffer n)
        (.asyncReadBodyOp .readData .token)).answer o, r.after (.readData .dynamicBuffer n) o)
    Reading initial response s' ∧ workload s'.1 s'.2 < 2 * r.remaining.length + 1 := by
  rcases Response.admits_read ho with
    ⟨e, hfails, hremaining, hending⟩ | ⟨len, data, rfl, hdata, hend⟩
  · have hanswered : Underway initial response (w.answered (.readData .dynamicBuffer n) o) r := by
      rcases hfails with rfl | rfl <;>
        exact ⟨h.pending, h.handled, h.committed, h.ending, h.assertsHold⟩
    have hdone := hanswered.bodyRead hremaining (Response.result_of_ending hending)
    intro s'
    have hs' : s' =
        (Handler.token.invoke e.val 0 (w.answered (.readData .dynamicBuffer n) o), r) := by
      simp only [s', Response.after_of_fails hfails, answer_read_of_fails h.pending _ n hfails]
    rw [hs']
    exact ⟨.done hdone, (workload_of_pending_nil hdone.pending r).trans_lt (by omega)⟩
  · by_cases hnil : data.take n.toNat = []
    · have hended : r.Ended := Response.ended_of_take_nil hn hend hnil
      have hafter : r.after (.readData .dynamicBuffer n) (.completed len data) = r := by
        simp [Response.after, StepCall.delivered, hnil]
      have hanswered : Underway initial response
          (w.answered (.readData .dynamicBuffer n) (.completed len data)) r :=
        ⟨h.pending, h.handled, h.committed, h.ending, h.assertsHold⟩
      have hdone := hanswered.bodyRead hended.1 hended.result
      intro s'
      have hs' : s' = (Handler.token.invoke .success 0
          (w.answered (.readData .dynamicBuffer n) (.completed len data)), r) := by
        simp only [s', hafter, answer_read_nil h.pending _ hnil]
      rw [hs']
      exact ⟨.done hdone, (workload_of_pending_nil hdone.pending r).trans_lt (by omega)⟩
    · obtain ⟨rest, hrest⟩ := hdata
      have hafter := Response.after_read .dynamicBuffer len hrest
      have hcommitted : Underway initial response (committedRead w n len data)
          { r with remaining := rest } := by
        refine ⟨h.pending, h.handled, ?_, h.ending, h.assertsHold⟩
        change (w.buffer.committed ++ data.take n.toNat) ++ rest = _
        rw [List.append_assoc, hrest, h.committed]
      have hlength : rest.length < r.remaining.length := by
        rw [← hrest, List.length_append]
        have := List.length_pos_iff.mpr hnil
        omega
      intro s'
      have hs' : s' = ((committedRead w n len data).asyncReadBody .token,
          { r with remaining := rest }) := by
        simp only [s', hafter, answer_read_cons h.pending _ hnil]
      rw [hs']
      refine ⟨.query hcommitted, (workload_query hcommitted.pending _ _).trans_lt ?_⟩
      change 2 * rest.length + 2 < _
      omega

theorem reading_step {initial : Bytes} {response : Response} {s s' : World × Response}
    {o : Outcome} (hs : Reading initial response s)
    (hstep : readBodySystem.step s o = some s') :
    Reading initial response s' ∧ workload s'.1 s'.2 < workload s.1 s.2 := by
  rcases hs with ⟨h⟩ | ⟨n, h, hn⟩ | ⟨h⟩
  · obtain ⟨ho, rfl⟩ := (Response.respond_start_eq_some h.pending).mp hstep
    rw [World.asyncReadBody, workload_query h.pending]
    exact reading_query h ho
  · obtain ⟨ho, rfl⟩ := (Response.respond_start_eq_some h.pending).mp hstep
    rw [workload_read h.pending]
    exact reading_read h hn ho
  · have hnone := Response.respond_of_pending_nil h.pending
    simp [readBodySystem, hnone] at hstep

theorem reading_progress {initial : Bytes} {response : Response} (s : World × Response)
    (hs : Reading initial response s) (hdone : ¬ BodyRead initial response s.1) :
    ∃ o s', readBodySystem.step s o = some s' := by
  rcases hs with ⟨h⟩ | ⟨n, h, -⟩ | ⟨h⟩
  · obtain ⟨o, ho⟩ := Response.exists_admits_query _
    exact ⟨o, _, (Response.respond_start_eq_some h.pending).mpr ⟨ho, rfl⟩⟩
  · obtain ⟨o, ho⟩ := Response.exists_admits_read _ .dynamicBuffer n
    exact ⟨o, _, (Response.respond_start_eq_some h.pending).mpr ⟨ho, rfl⟩⟩
  · exact absurd h hdone

/-- Within two WinHTTP calls for every byte, and two at the end, the operation
has read the response. -/
theorem within_bodyRead {initial : Bytes} {response : Response} {s : World × Response}
    (hs : Reading initial response s) :
    readBodySystem.Within (fun s => BodyRead initial response s.1) (workload s.1 s.2) s :=
  System.within_of_measure (fun s => workload s.1 s.2) reading_progress
    (fun _ _ _ hs _ hstep => reading_step hs hstep) hs

theorem readBodySystem_of_pending_nil {s : World × Response} (hs : s.1.pending = [])
    (o : Outcome) : readBodySystem.step s o = none :=
  Response.respond_of_pending_nil hs s.2 o

end Winasio.ResponseBody
