import Mathlib.Order.Basic
import Winasio.QueueHandle

/-!
`async_receive_body`: the entity body of a request is received piece by piece,
in requests for as many bytes as the hint says.
-/

namespace Winasio.ReceiveBody

open Winasio.Transition
open Winasio.QueueHandle

/-- What HTTP.sys may answer while some bytes of the body remain: the next ones
of them as long as there are any, the end of the body with the last piece or
with nothing, or another error. -/
def admits (remaining : Bytes) (c : Call) (r : Report) : Bool :=
  r.written.length ≤ c.length.toNat ∧
    (r.code = 0 → remaining ≠ [] ∧ r.written <+: remaining ∧
      (c.length ≠ 0 → r.written ≠ []) ∧ r.len = r.written.length) ∧
    (r.code = ErrorCode.handleEof → r.written = remaining ∧ r.len = r.written.length)

def after (remaining : Bytes) (r : Report) : Bytes :=
  if r.code = 0 ∨ r.code = ErrorCode.handleEof then remaining.drop r.written.length
  else remaining

/-- `async_receive_body` on a handle, with HTTP.sys answering one call after the
other. -/
def system (L : Layout) : System (World × Bytes) Report :=
  ⟨fun s r =>
    match s.1.pending with
    | [] => none
    | (c, _) :: _ => if admits s.2 c r then some (s.1.answer L r, after s.2 r) else none⟩

def start (L : Layout) (ndebug : Bool) (buffer : DynamicBuffer UInt8) (id : RequestId)
    (hint : Nat) : World :=
  World.asyncReceiveBody { ndebug, buffer } L id hint .token

abbrev receiving (id : RequestId) (hint : Nat) : Handler :=
  .asyncReceiveBodyOp id hint .recieving .token

theorem start_eq (L : Layout) (ndebug : Bool) (buffer : DynamicBuffer UInt8) (id : RequestId)
    (hint : Nat) :
    start L ndebug buffer id hint =
      World.recieveBody { ndebug, buffer } (receiving id hint) id hint := rfl

/-- The bytes that the answers to some calls have delivered. -/
def delivered (answered : List (Call × Report)) : Bytes := answered.flatMap fun x => x.2.written

/-- All calls of the operation succeeded but the last one, after which the
handler was invoked once: with success at the end of the body, which the
buffer then holds behind its old content, and otherwise with the error, and
with the bytes of the other calls in the buffer. -/
structure BodyReceived (old body : Bytes) (w : World) : Prop where
  pending : w.pending = []
  outcome : ∃ earlier c r, w.answered = earlier ++ [(c, r)] ∧
    (∀ x ∈ earlier, x.2.code = 0) ∧
    (r.code = ErrorCode.handleEof ∧ w.handled = [(.success, r.len)] ∧
        w.buffer.committed = old ++ body ∨
      r.code ≠ 0 ∧ r.code ≠ ErrorCode.handleEof ∧ w.handled = [(⟨r.code⟩, r.len)] ∧
        w.buffer.committed = old ++ delivered earlier)

/-- The buffer between two calls: what the calls delivered is behind the old
content, and with what remains it makes up the body. -/
structure Underway (old body : Bytes) (w : World) (remaining : Bytes) : Prop where
  pending : w.pending = []
  handled : w.handled = []
  succeeded : ∀ x ∈ w.answered, x.2.code = 0
  committed : w.buffer.committed = old ++ delivered w.answered
  body : delivered w.answered ++ remaining = body

inductive Receiving (id : RequestId) (hint : Nat) (old body : Bytes) : World × Bytes → Prop
  | waiting {w : World} {remaining : Bytes} {len : Nat} : Underway old body w remaining →
      1 ≤ len → len < 2 ^ 32 →
      Receiving id hint old body (w.recieveBody (receiving id hint) id len, remaining)
  | ended {w : World} {remaining : Bytes} : BodyReceived old body w →
      Receiving id hint old body (w, remaining)

def bodyCall (w : World) (id : RequestId) (len : Nat) : Call :=
  { w with buffer := w.buffer.prepare len }.bodyCall id

theorem length_bodyCall {len : Nat} (hlt : len < 2 ^ 32) (w : World) (id : RequestId) :
    (bodyCall w id len).length.toNat = len := by
  change (UInt32.ofNat (w.buffer.prepare len).spare.length).toNat = len
  rw [DynamicBuffer.length_spare_prepare, UInt32.toNat_ofNat']
  omega

def answered (w : World) (id : RequestId) (len : Nat) (r : Report) : World :=
  { w with buffer := w.buffer.prepare len }.store (bodyCall w id len) r

def committed (w : World) (id : RequestId) (len : Nat) (r : Report) : World :=
  { answered w id len r with buffer := .ofVector (w.buffer.committed ++ r.written) }

theorem answer_recieveBody {w : World} (hw : w.pending = []) (L : Layout) (id : RequestId)
    (hint len : Nat) (r : Report) :
    (w.recieveBody (receiving id hint) id len).answer L r =
      (receiving id hint).invoke L ⟨r.code⟩ r.len (answered w id len r) :=
  World.answer_pend (w := { w with buffer := w.buffer.prepare len }) hw L _ _ rfl

theorem commit_answered (w : World) (id : RequestId) (len : Nat) {r : Report}
    (hr : r.len = r.written.length) :
    { answered w id len r with buffer := (answered w id len r).buffer.commit r.len } =
      committed w id len r := by
  have : (answered w id len r).buffer.commit r.len =
      .ofVector (w.buffer.committed ++ r.written) := by
    rw [hr]
    exact DynamicBuffer.commit_write (w.buffer.prepare len) r.written
  rw [this]
  rfl

theorem answer_success {w : World} (hw : w.pending = []) (L : Layout) (id : RequestId)
    (hint len : Nat) {r : Report} (hcode : r.code = 0) (hr : r.len = r.written.length) :
    (w.recieveBody (receiving id hint) id len).answer L r =
      (committed w id len r).recieveBody (receiving id hint) id
        (if r.len < hint then 1 else hint) := by
  rw [answer_recieveBody hw, ← commit_answered w id len hr, hcode]
  rfl

theorem answer_eof {w : World} (hw : w.pending = []) (L : Layout) (id : RequestId)
    (hint len : Nat) {r : Report} (hcode : r.code = ErrorCode.handleEof)
    (hr : r.len = r.written.length) :
    (w.recieveBody (receiving id hint) id len).answer L r =
      Handler.token.invoke L .success r.len (committed w id len r) := by
  rw [answer_recieveBody hw, ← commit_answered w id len hr, hcode]
  rfl

theorem answer_error {w : World} (hw : w.pending = []) (L : Layout) (id : RequestId)
    (hint len : Nat) {r : Report} (hzero : r.code ≠ 0) (heof : r.code ≠ ErrorCode.handleEof) :
    (w.recieveBody (receiving id hint) id len).answer L r =
      Handler.token.invoke L ⟨r.code⟩ r.len (answered w id len r) := by
  have hfailed : (⟨r.code⟩ : ErrorCode).failed = true := ErrorCode.failed_iff.mpr hzero
  rw [answer_recieveBody hw]
  simp [Handler.invoke, hfailed, heof]

theorem delivered_concat (xs : List (Call × Report)) (c : Call) (r : Report) :
    delivered (xs ++ [(c, r)]) = delivered xs ++ r.written := by
  simp [delivered]

theorem Underway.committed_piece {old body remaining rest : Bytes} {w : World} {r : Report}
    (h : Underway old body w remaining) (id : RequestId) (len : Nat) (hcode : r.code = 0)
    (hrest : r.written ++ rest = remaining) :
    Underway old body (ReceiveBody.committed w id len r) rest where
  pending := h.pending
  handled := h.handled
  succeeded := by
    intro x hx
    rcases List.mem_append.mp hx with hx | hx
    · exact h.succeeded x hx
    · rw [List.mem_singleton.mp hx]
      exact hcode
  committed := by
    change w.buffer.committed ++ r.written = old ++ delivered (w.answered ++ [_])
    rw [h.committed, delivered_concat, List.append_assoc]
  body := by
    change delivered (w.answered ++ [_]) ++ rest = body
    rw [delivered_concat, List.append_assoc, hrest, h.body]

/-- How many calls are still to be answered, at most. -/
def workload (s : World × Bytes) : Nat :=
  s.2.length + if s.1.pending = [] then 0 else 1

theorem workload_recieveBody (w : World) (h : Handler) (id : RequestId) (len : Nat)
    (remaining : Bytes) : workload (w.recieveBody h id len, remaining) = remaining.length + 1 := by
  have : (w.recieveBody h id len).pending ≠ [] :=
    List.append_ne_nil_of_right_ne_nil w.pending (List.cons_ne_nil _ _)
  rw [workload, if_neg this]

theorem workload_over {w : World} (hw : w.pending = []) (remaining : Bytes) :
    workload (w, remaining) = remaining.length := by
  rw [workload, if_pos hw]
  rfl

theorem system_of_pending_nil {L : Layout} {s : World × Bytes} (hs : s.1.pending = [])
    (r : Report) : (system L).step s r = none := by
  simp [system, hs]

theorem step_recieveBody {L : Layout} {w : World} (hw : w.pending = []) {h : Handler}
    {id : RequestId} {len : Nat} {remaining : Bytes} {r : Report} {s : World × Bytes} :
    (system L).step (w.recieveBody h id len, remaining) r = some s ↔
      admits remaining (bodyCall w id len) r = true ∧
        ((w.recieveBody h id len).answer L r, after remaining r) = s := by
  simp [system, World.recieveBody, World.pend, hw, bodyCall]

/-- One answer: the operation asks on, or it is over; either way there is less
to do. -/
theorem receiving_step {L : Layout} {id : RequestId} {hint : Nat} (hhint : 1 ≤ hint)
    (hlt : hint < 2 ^ 32) {old body : Bytes} {s s' : World × Bytes} {r : Report}
    (hs : Receiving id hint old body s) (hstep : (system L).step s r = some s') :
    Receiving id hint old body s' ∧ workload s' < workload s := by
  rcases hs with @⟨w, remaining, len, h, hlen, hlen'⟩ | ⟨h⟩
  · obtain ⟨hadmits, rfl⟩ := (step_recieveBody h.pending).mp hstep
    obtain ⟨-, hsuccess, hend⟩ := of_decide_eq_true hadmits
    rw [workload_recieveBody]
    by_cases hzero : r.code = 0
    · obtain ⟨-, ⟨rest, hrest⟩, hnonempty, hr⟩ := hsuccess hzero
      have hlength : (bodyCall w id len).length ≠ 0 := by
        intro hnil
        have := length_bodyCall hlen' w id
        rw [hnil, UInt32.toNat_zero] at this
        omega
      have hpos := List.length_pos_iff.mpr (hnonempty hlength)
      have hafter : after remaining r = rest := by
        simp [after, hzero, ← hrest]
      have hnext := h.committed_piece id len hzero hrest
      rw [answer_success h.pending L id hint len hzero hr, hafter, workload_recieveBody, ← hrest,
        List.length_append]
      refine ⟨.waiting hnext ?_ ?_, by omega⟩
      · split <;> omega
      · split <;> omega
    · by_cases heof : r.code = ErrorCode.handleEof
      · obtain ⟨hwritten, hr⟩ := hend heof
        rw [answer_eof h.pending L id hint len heof hr]
        refine ⟨.ended ⟨h.pending, w.answered, bodyCall w id len, r, rfl, h.succeeded,
          .inl ⟨heof, ?_, ?_⟩⟩, (workload_over h.pending _).trans_lt ?_⟩
        · change w.handled ++ [(ErrorCode.success, r.len)] = _
          rw [h.handled]
          rfl
        · change w.buffer.committed ++ r.written = _
          rw [h.committed, hwritten, List.append_assoc, h.body]
        · simp [after, heof, hwritten]
      · rw [answer_error h.pending L id hint len hzero heof]
        refine ⟨.ended ⟨h.pending, w.answered, bodyCall w id len, r, rfl, h.succeeded,
          .inr ⟨hzero, heof, ?_, h.committed⟩⟩, (workload_over h.pending _).trans_lt ?_⟩
        · change w.handled ++ [((⟨r.code⟩ : ErrorCode), r.len)] = _
          rw [h.handled]
          rfl
        · simp [after, hzero, heof]
  · rw [system_of_pending_nil h.pending] at hstep
    cases hstep

theorem receiving_progress {L : Layout} {id : RequestId} {hint : Nat} {old body : Bytes}
    (s : World × Bytes) (hs : Receiving id hint old body s)
    (hdone : ¬ BodyReceived old body s.1) : ∃ r s', (system L).step s r = some s' := by
  rcases hs with @⟨w, remaining, len, h, hlen, hlen'⟩ | ⟨h⟩
  · refine ⟨{ result := 5 }, _, (step_recieveBody h.pending).mpr ⟨?_, rfl⟩⟩
    exact decide_eq_true ⟨Nat.zero_le _, fun h => absurd h (by decide),
      fun h => absurd h (by decide)⟩
  · exact absurd h hdone

/-- However HTTP.sys cuts a body into pieces, and wherever it fails: within one
call for every byte and one more, `async_receive_body` has received the body
or passed on the error. -/
theorem asyncReceiveBody_delivers (L : Layout) (ndebug : Bool) (buffer : DynamicBuffer UInt8)
    (id : RequestId) (hint : Nat) (hhint : 1 ≤ hint) (hlt : hint < 2 ^ 32) (body : Bytes) :
    (system L).Within (fun s => BodyReceived buffer.committed body s.1) (body.length + 1)
      (start L ndebug buffer id hint, body) := by
  have hstart : Receiving id hint buffer.committed body (start L ndebug buffer id hint, body) := by
    rw [start_eq]
    exact .waiting ⟨rfl, rfl, by simp, (List.append_nil _).symm, rfl⟩ hhint hlt
  have hwork : workload (start L ndebug buffer id hint, body) = body.length + 1 := by
    rw [start_eq, workload_recieveBody]
  rw [← hwork]
  exact System.within_of_measure workload receiving_progress
    (fun _ _ _ hs _ hstep => receiving_step hhint hlt hs hstep) hstart

/-- Three bytes, two at a time, behind a byte that was there. -/
theorem asyncReceiveBody_delivers_threeBytes :
    (system .x64).Within (fun s => BodyReceived [9] [65, 66, 67] s.1) 4
      (start .x64 false (.ofVector [9]) [0, 0, 0, 0, 0, 0, 0, 1] 2, [65, 66, 67]) :=
  asyncReceiveBody_delivers .x64 false (.ofVector [9]) _ 2 (by decide) (by decide) _

end Winasio.ReceiveBody
