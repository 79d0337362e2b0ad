import Winasio.Operation

/-!
`async_read_body` against the sequential loop it stands for, and the vector it
leaves behind.
-/

namespace Winasio.ReadBody

open Winasio.ClientPayload
open Winasio.RequestContext
open Winasio.Operation

/-- The run of a sequential client: the calls it issues, the error code it
ends with, or `none` while it waits for an answer, and the bytes it appends. -/
structure SeqRun where
  calls : List Call
  result : Option ErrorCode
  bytes : Bytes := []
  deriving DecidableEq, Repr

def SeqRun.after (r : SeqRun) (calls : List Call) (bytes : Bytes) : SeqRun :=
  { r with calls := calls ++ r.calls, bytes := bytes ++ r.bytes }

def query : Call := .step .queryDataAvailable

def read (n : UInt32) : Call := .step (.readData .dynamicBuffer n)

/-- Repeat: query, read as much as was announced, stop when nothing was read
and append what was read otherwise. -/
def readLoop : List Outcome → SeqRun
  | [] => { calls := [query], result := none }
  | .failed e :: _ | .requestError e :: _ => { calls := [query], result := some e.val }
  | [.completed n _] => { calls := [query, read n], result := none }
  | .completed n _ :: .failed e :: _ | .completed n _ :: .requestError e :: _ =>
      { calls := [query, read n], result := some e.val }
  | .completed n _ :: .completed _ data :: script =>
      if data.take n.toNat = [] then { calls := [query, read n], result := some .success }
      else (readLoop script).after [query, read n] (data.take n.toNat)

/-- What an operation did to the world while it followed a sequential run. -/
structure Follows (w w' : World) (r : SeqRun) : Prop where
  calls : w'.calls = w.calls ++ r.calls
  committed : w'.buffer.committed = w.buffer.committed ++ r.bytes
  posted : w'.posted = w.posted
  handled : w'.handled = w.handled
  assertsHold : w'.assertsHold = w.assertsHold

theorem Follows.after {w w₁ w' : World} {calls : List Call} {bytes : Bytes}
    {ec : Option ErrorCode} {r : SeqRun} (h₁ : Follows w w₁ ⟨calls, ec, bytes⟩)
    (h : Follows w₁ w' r) : Follows w w' (r.after calls bytes) where
  calls := by rw [h.calls, h₁.calls, List.append_assoc]; rfl
  committed := by rw [h.committed, h₁.committed, List.append_assoc]; rfl
  posted := h.posted.trans h₁.posted
  handled := h.handled.trans h₁.handled
  assertsHold := h.assertsHold.trans h₁.assertsHold

/-- A handler that starts nothing, so that nothing is pending after it. -/
def Ends (h : Handler) : Prop :=
  ∀ ec len w, w.pending = [] → (h.invoke ec len w).pending = []

theorem ends_token : Ends .token := fun _ _ _ hw => hw

theorem invoke_asyncReadBodyOp_of_failed {ec : ErrorCode} (hec : ec.failed = true)
    (state : ReadBodyState) (self : Handler) (len : Nat) (w : World) :
    (Handler.asyncReadBodyOp state self).invoke ec len w = self.invoke ec len w := by
  cases state <;> simp [Handler.invoke, hec]

theorem answer_query_of_fails {w : World} (hw : w.pending = []) (self : Handler) {o : Outcome}
    {e : Failure} (ho : o.Fails e) :
    (w.asyncReadBody self).answer o =
      self.invoke e.val 0 (w.answered .queryDataAvailable o) := by
  rw [World.asyncReadBody, World.asyncQueryDataAvailable, World.answer_start hw, ho.result,
    invoke_asyncReadBodyOp_of_failed e.failed]

def queried (w : World) (n : UInt32) (data : Bytes) : World :=
  let w' := w.answered .queryDataAvailable (.completed n data)
  { w' with buffer := w'.buffer.prepare (n.toNat + 1) }

theorem answer_query {w : World} (hw : w.pending = []) (self : Handler) (n : UInt32)
    (data : Bytes) :
    (w.asyncReadBody self).answer (.completed n data) =
      (queried w n data).start (.readData .dynamicBuffer n)
        (.asyncReadBodyOp .readData self) := by
  rw [World.asyncReadBody, World.asyncQueryDataAvailable, World.answer_start hw]
  simp [Handler.invoke, Outcome.result, StepCall.completion, Notification.result, queried,
    World.asyncReadData]

theorem answer_read_of_fails {w : World} (hw : w.pending = []) (self : Handler) (n : UInt32)
    {o : Outcome} {e : Failure} (ho : o.Fails e) :
    (w.start (.readData .dynamicBuffer n) (.asyncReadBodyOp .readData self)).answer o =
      self.invoke e.val 0 (w.answered (.readData .dynamicBuffer n) o) := by
  rw [World.answer_start hw, ho.result, invoke_asyncReadBodyOp_of_failed e.failed]

theorem result_readData (d : Destination) (n len : UInt32) (data : Bytes) :
    (Outcome.completed len data).result (.readData d n) =
      (.success, (data.take n.toNat).length) := by
  have hn := n.toNat_lt
  simp [Outcome.result, StepCall.completion, Notification.result, StepCall.delivered]
  omega

theorem answer_read_nil {w : World} (hw : w.pending = []) (self : Handler) {n len : UInt32}
    {data : Bytes} (hdata : data.take n.toNat = []) :
    (w.start (.readData .dynamicBuffer n) (.asyncReadBodyOp .readData self)).answer
        (.completed len data) =
      self.invoke .success 0 (w.answered (.readData .dynamicBuffer n) (.completed len data)) := by
  rw [World.answer_start hw, result_readData, hdata]
  simp [Handler.invoke]

/-- A round that read something: the bytes are committed and the vector is
trimmed to them. -/
def committedRead (w : World) (n len : UInt32) (data : Bytes) : World :=
  let w' := w.answered (.readData .dynamicBuffer n) (.completed len data)
  { w' with buffer := .ofVector (w.buffer.committed ++ data.take n.toNat) }

theorem answer_read_cons {w : World} (hw : w.pending = []) (self : Handler) {n len : UInt32}
    {data : Bytes} (hdata : data.take n.toNat ≠ []) :
    (w.start (.readData .dynamicBuffer n) (.asyncReadBodyOp .readData self)).answer
        (.completed len data) =
      (committedRead w n len data).asyncReadBody self := by
  rw [World.answer_start hw, result_readData]
  have hlen : (data.take n.toNat).length ≠ 0 := by simpa using hdata
  have hbuffer : (w.answered (.readData .dynamicBuffer n) (.completed len data)).buffer =
      w.buffer.write (data.take n.toNat) := rfl
  simp only [Handler.invoke, ErrorCode.failed_success, Bool.false_eq_true, if_false, hlen,
    ne_eq, not_false_eq_true, if_true, hbuffer, DynamicBuffer.commit_write]
  rfl

/-- Where the operation stands after a script: it still waits for an answer,
or it has completed, and its handler ran in a world that followed the loop. A
successful completion leaves prepared room behind. -/
def Stands (w : World) (self : Handler) (r : SeqRun) (t : World) : Prop :=
  match r.result with
  | none => Follows w t r ∧ t.pending.length = 1
  | some ec => ∃ w', Follows w w' r ∧ w'.pending = [] ∧ t = self.invoke ec 0 w' ∧
      (ec = .success → w'.buffer.spare ≠ [])

theorem stands_failed {w w' : World} {self : Handler} {calls : List Call} {e : Failure}
    (hself : Ends self) (h : Follows w w' ⟨calls, some e.val, []⟩) (hw' : w'.pending = [])
    (script : List Outcome) :
    Stands w self ⟨calls, some e.val, []⟩ ((self.invoke e.val 0 w').run script) := by
  refine ⟨w', h, hw', World.run_of_pending_nil (hself _ _ _ hw') script, fun hec => ?_⟩
  have := e.failed
  rw [hec] at this
  cases this

theorem stands_waiting {w w' : World} {self h' : Handler} {c : StepCall} {calls : List Call}
    (h : Follows w (w'.start c h') ⟨calls, none, []⟩) (hw' : w'.pending = []) :
    Stands w self ⟨calls, none, []⟩ (w'.start c h') :=
  ⟨h, by simp [World.start, hw']⟩

theorem Stands.after {w w₁ t : World} {self : Handler} {calls : List Call} {bytes : Bytes}
    {ec : Option ErrorCode} {r : SeqRun} (h₁ : Follows w w₁ ⟨calls, ec, bytes⟩)
    (h : Stands w₁ self r t) : Stands w self (r.after calls bytes) t := by
  rcases r with ⟨calls', _ | e, bytes'⟩
  · exact ⟨h₁.after h.1, h.2⟩
  · obtain ⟨w', hw', hrest⟩ := h
    exact ⟨w', h₁.after hw', hrest⟩

/-- A run that reads nothing keeps what is committed. -/
theorem follows_of_calls {w w' : World} {calls : List Call} {ec : Option ErrorCode}
    (hcalls : w'.calls = w.calls ++ calls)
    (hcommitted : w'.buffer.committed = w.buffer.committed) (hposted : w'.posted = w.posted)
    (hhandled : w'.handled = w.handled) (hasserts : w'.assertsHold = w.assertsHold) :
    Follows w w' ⟨calls, ec, []⟩ where
  calls := hcalls
  committed := by rw [hcommitted, List.append_nil]
  posted := hposted
  handled := hhandled
  assertsHold := hasserts

theorem follows_answered_of_fails (w : World) (c : StepCall) {o : Outcome} {e : Failure}
    (ho : o.Fails e) (ec : Option ErrorCode) :
    Follows w (w.answered c o) ⟨[.step c], ec, []⟩ := by
  rcases ho with rfl | rfl
  · exact follows_of_calls rfl rfl rfl rfl rfl
  · exact follows_of_calls rfl rfl rfl rfl rfl

theorem follows_start (w : World) (c : StepCall) (h : Handler) :
    Follows w (w.start c h) ⟨[.step c], none, []⟩ :=
  follows_of_calls rfl rfl rfl rfl rfl

theorem follows_queried (w : World) (n : UInt32) (data : Bytes) (ec : Option ErrorCode) :
    Follows w (queried w n data) ⟨[query], ec, []⟩ :=
  follows_of_calls rfl rfl rfl rfl rfl

theorem follows_committedRead (w : World) (n len : UInt32) (data : Bytes)
    (ec : Option ErrorCode) :
    Follows w (committedRead w n len data) ⟨[read n], ec, data.take n.toNat⟩ :=
  ⟨rfl, rfl, rfl, rfl, rfl⟩

theorem spare_of_read_nil (w : World) {n len : UInt32} {data data' : Bytes}
    (hdata : data'.take n.toNat = []) :
    ((queried w n data).answered (.readData .dynamicBuffer n)
      (.completed len data')).buffer.spare ≠ [] := by
  have hbuffer : ((queried w n data).answered (.readData .dynamicBuffer n)
      (.completed len data')).buffer = (queried w n data).buffer.write (data'.take n.toNat) := rfl
  have hlen := DynamicBuffer.length_spare_prepare
    (w.answered .queryDataAvailable (.completed n data)).buffer (n.toNat + 1)
  rw [hbuffer, hdata]
  intro h
  have : (queried w n data).buffer.spare = [] := by simpa [DynamicBuffer.write] using h
  simp only [queried] at this
  simp [this] at hlen

theorem follows_read (w : World) (n len : UInt32) (data : Bytes) (ec : Option ErrorCode) :
    Follows w (w.answered (.readData .dynamicBuffer n) (.completed len data))
      ⟨[read n], ec, []⟩ :=
  follows_of_calls rfl rfl rfl rfl rfl

/-- On every script `async_read_body` behaves like the loop. -/
theorem run_asyncReadBody {self : Handler} (hself : Ends self) {w : World} (hw : w.pending = [])
    (script : List Outcome) :
    Stands w self (readLoop script) ((w.asyncReadBody self).run script) := by
  induction script using readLoop.induct generalizing w with
  | case1 =>
      exact stands_waiting
        (follows_start w .queryDataAvailable (.asyncReadBodyOp .queryData self)) hw
  | case2 e script =>
      rw [World.run_cons, answer_query_of_fails hw self (.inl rfl)]
      exact stands_failed hself (follows_answered_of_fails w _ (.inl rfl) _) hw script
  | case3 e script =>
      rw [World.run_cons, answer_query_of_fails hw self (.inr rfl)]
      exact stands_failed hself (follows_answered_of_fails w _ (.inr rfl) _) hw script
  | case4 n data =>
      have hq : (queried w n data).pending = [] := hw
      rw [World.run_cons, answer_query hw, World.run_nil]
      have h := (follows_queried w n data none).after (follows_start (queried w n data)
        (.readData .dynamicBuffer n) (.asyncReadBodyOp .readData self))
      exact stands_waiting h hq
  | case5 n data e script =>
      have hq : (queried w n data).pending = [] := hw
      rw [World.run_cons, answer_query hw, World.run_cons,
        answer_read_of_fails hq self n (.inl rfl)]
      exact stands_failed hself ((follows_queried w n data none).after
        (follows_answered_of_fails _ _ (.inl rfl) _)) hq script
  | case6 n data e script =>
      have hq : (queried w n data).pending = [] := hw
      rw [World.run_cons, answer_query hw, World.run_cons,
        answer_read_of_fails hq self n (.inr rfl)]
      exact stands_failed hself ((follows_queried w n data none).after
        (follows_answered_of_fails _ _ (.inr rfl) _)) hq script
  | case7 n data len data' script hdata =>
      have hq : (queried w n data).pending = [] := hw
      rw [World.run_cons, answer_query hw, World.run_cons, answer_read_nil hq self hdata,
        readLoop, if_pos hdata]
      have hr : ((queried w n data).answered (.readData .dynamicBuffer n)
          (.completed len data')).pending = [] := hq
      exact ⟨_, (follows_queried w n data none).after (follows_read _ n len data' _), hr,
        World.run_of_pending_nil (hself _ _ _ hr) script, fun _ => spare_of_read_nil w hdata⟩
  | case8 n data len data' script hdata ih =>
      have hq : (queried w n data).pending = [] := hw
      rw [World.run_cons, answer_query hw, World.run_cons, answer_read_cons hq self hdata,
        readLoop, if_neg hdata]
      have hround := (follows_queried w n data none).after
        (follows_committedRead (queried w n data) n len data' none)
      have hrest : Stands _ self (readLoop script)
          (((committedRead (queried w n data) n len data').asyncReadBody self).run script) :=
        ih hq
      exact hrest.after hround

end Winasio.ReadBody
