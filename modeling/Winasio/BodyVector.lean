import Winasio.Client

/-!
The vector behind the dynamic buffer after a body was read: by
`async_read_body`, by `async_exec`, and by the loop a caller writes by hand.
-/

namespace Winasio.BodyVector

open Winasio.ClientPayload
open Winasio.RequestContext
open Winasio.Operation
open Winasio.ReadBody
open Winasio.Client

/-- A round of the loop of the README: prepare one byte more than announced,
read, and commit what was announced. -/
def handWrittenRound (b : DynamicBuffer UInt8) (n : UInt32) (data : Bytes) :
    DynamicBuffer UInt8 :=
  ((b.prepare (n.toNat + 1)).write (data.take n.toNat)).commit n.toNat

/-- The loop insists on reading what was announced, and commits in every
round, the last one included. -/
def handWrittenLoop (b : DynamicBuffer UInt8) : List Outcome → Option (DynamicBuffer UInt8)
  | .completed n _ :: .completed _ data :: script =>
      if (data.take n.toNat).length ≠ n.toNat then none
      else if n.toNat > 0 then handWrittenLoop (handWrittenRound b n data) script
      else some (handWrittenRound b n data)
  | _ => none

theorem handWrittenRound_eq (b : DynamicBuffer UInt8) {n : UInt32} {data : Bytes}
    (h : (data.take n.toNat).length = n.toNat) :
    handWrittenRound b n data = .ofVector (b.committed ++ data.take n.toNat) := by
  have := DynamicBuffer.commit_write (b.prepare (n.toNat + 1)) (data.take n.toNat)
  rwa [h] at this

theorem handWrittenLoop_vector {b b' : DynamicBuffer UInt8} {script : List Outcome}
    (h : handWrittenLoop b script = some b') :
    (readLoop script).result = some .success ∧
      b'.vector = b.committed ++ (readLoop script).bytes := by
  induction b, script using handWrittenLoop.induct with
  | case1 b n data len data' script hlen =>
      rw [handWrittenLoop, if_pos hlen] at h
      cases h
  | case2 b n data len data' script hlen hpos ih =>
      have hlen : (data'.take n.toNat).length = n.toNat := by simpa using hlen
      have hne : data'.take n.toNat ≠ [] := by
        intro hnil
        rw [hnil, List.length_nil] at hlen
        omega
      simp only [handWrittenLoop, hlen, ne_eq, not_true_eq_false, if_false, hpos, if_true] at h
      obtain ⟨hresult, hvector⟩ := ih h
      rw [readLoop, if_neg hne]
      refine ⟨hresult, hvector.trans ?_⟩
      rw [handWrittenRound_eq b hlen]
      exact List.append_assoc _ _ _
  | case3 b n data len data' script hlen hpos =>
      have hlen : (data'.take n.toNat).length = n.toNat := by simpa using hlen
      have hnil : data'.take n.toNat = [] := List.eq_nil_of_length_eq_zero (by omega)
      simp only [handWrittenLoop, hlen, ne_eq, not_true_eq_false, if_false, hpos,
        Option.some.injEq] at h
      rw [readLoop, if_pos hnil, ← h, handWrittenRound_eq b hlen, hnil]
      exact ⟨rfl, List.append_nil _⟩
  | case4 b script hscript => simp [handWrittenLoop] at h

/-- The vector holds the initial content and the body and nothing else, once
the operation has completed with success. -/
def LeavesBody (initial body : Bytes) (t : World) : Prop :=
  t.handled = [(.success, 0)] → t.buffer.vector = initial ++ body

def readBodyRun (initial : Bytes) (script : List Outcome) (handle : Option Nat)
    (ctx : AsioRequestContext) : World :=
  ((World.asyncReadBody { handle, ctx, buffer := .ofVector initial } .token).run
    script).runPosted

def execRun (initial : Bytes) (p : Payload) (connect : Nat) (sync : SyncOutcomes)
    (script : List Outcome) (handle : Option Nat) (ctx : AsioRequestContext) : World :=
  ((asyncExec p connect sync { handle, ctx, buffer := .ofVector initial }).2.run
    script).runPosted

theorem leavesBody_iff_of_refines {w t : World} {r : SeqRun} {initial : Bytes}
    (hw : w.handled = []) (hbuffer : w.buffer = .ofVector initial) (h : Refines w t r) :
    LeavesBody initial r.bytes t ↔ r.result ≠ some .success := by
  have hhandled : t.handled = [(.success, 0)] ↔ r.result = some .success := by
    rw [h.handled, hw]
    cases hr : r.result <;> simp
  have hcommitted : t.buffer.committed = initial ++ r.bytes := by
    rw [h.committed, hbuffer]
    rfl
  constructor
  · intro hleaves hresult
    apply h.surplus hresult
    simpa [DynamicBuffer.vector, hcommitted] using hleaves (hhandled.mpr hresult)
  · intro hresult hdone
    exact absurd (hhandled.mp hdone) hresult

/-- Neither operation ever leaves just the body in the vector: whenever one
completes with success, the byte prepared for its last read is still there. -/
theorem leavesBody_iff (initial : Bytes) (script : List Outcome) (handle : Option Nat)
    (ctx : AsioRequestContext) :
    (LeavesBody initial (readLoop script).bytes (readBodyRun initial script handle ctx) ↔
      (readLoop script).result ≠ some .success) ∧
    ∀ p connect sync,
      (LeavesBody initial (reference p connect handle sync script).bytes
          (execRun initial p connect sync script handle ctx) ↔
        (reference p connect handle sync script).result ≠ some .success) := by
  constructor
  · exact leavesBody_iff_of_refines rfl rfl
      (refines_of_stands rfl (run_asyncReadBody ends_token rfl script))
  · intro p connect sync
    exact leavesBody_iff_of_refines rfl rfl
      (asyncExec_refines p connect sync script handle ctx (.ofVector initial))

/-- A body of three bytes: the loop written by hand leaves them, the operation
leaves a fourth. -/
theorem readBodyRun_threeBytes :
    let script : List Outcome :=
      [.completed 3 [], .completed 0 [65, 66, 67], .completed 0 [], .completed 0 []]
    (readBodyRun [9] script none {}).handled = [(.success, 0)] ∧
      (readBodyRun [9] script none {}).buffer.vector = [9, 65, 66, 67, 0] ∧
      (handWrittenLoop (.ofVector [9]) script).map DynamicBuffer.vector =
        some [9, 65, 66, 67] ∧
      ¬ LeavesBody [9] [65, 66, 67] (readBodyRun [9] script none {}) := by
  refine ⟨by decide, by decide, by decide, fun h => ?_⟩
  exact absurd (h (by decide)) (by decide)

end Winasio.BodyVector
