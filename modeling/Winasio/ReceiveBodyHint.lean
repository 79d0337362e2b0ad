import Winasio.ReceiveBody

/-!
`async_receive_body` for every hint of type `size_t`. The length of a call is
the hint cut down to 32 bits.
-/

namespace Winasio.ReceiveBodyHint

open Winasio.Transition
open Winasio.QueueHandle
open Winasio.ReceiveBody

/-- What HTTP.sys may answer: some of the bytes that remain, and none of them
only if the call has no room for any; the end of the body once none remain. -/
def supplies (remaining : Bytes) (c : Call) (r : Report) : Bool :=
  if remaining = [] then r.code = ErrorCode.handleEof ∧ r.written = [] ∧ r.len = 0
  else r.code = 0 ∧ r.written <+: remaining ∧ r.written.length ≤ c.length.toNat ∧
    (c.length ≠ 0 → r.written ≠ []) ∧ r.len = r.written.length

def supplied (L : Layout) : System (World × Bytes) Report :=
  ⟨fun s r =>
    match s.1.pending with
    | [] => none
    | (c, _) :: _ => if supplies s.2 c r then some (s.1.answer L r, after s.2 r) else none⟩

def calls (w : World) : List Call := (w.answered.map Prod.fst) ++ w.pending.map Prod.fst

def Completed (w : World) : Prop := w.pending = [] ∧ w.handled.length = 1

/-- No call is made without room, and one call for every byte and one more are
enough. -/
structure Terminates (L : Layout) (ndebug : Bool) (buffer : DynamicBuffer UInt8)
    (id : RequestId) (hint : UInt64) (body : Bytes) : Prop where
  room : ∀ reports s,
    (supplied L).run (start L ndebug buffer id hint.toNat, body) reports = some s →
      ∀ c ∈ calls s.1, c.length ≠ 0
  completes : (supplied L).Within (fun s => Completed s.1) (body.length + 1)
    (start L ndebug buffer id hint.toNat, body)

/-- The operation is in progress, and none of its calls was made without
room. -/
inductive Asking (id : RequestId) (hint : Nat) : World × Bytes → Prop
  | waiting {w : World} {remaining : Bytes} {len : Nat} :
      w.pending = [] → w.handled = [] → (∀ x ∈ w.answered, x.1.length ≠ 0) →
      UInt32.ofNat len ≠ 0 →
      Asking id hint (w.recieveBody (receiving id hint) id len, remaining)
  | ended {w : World} {remaining : Bytes} : Completed w →
      (∀ x ∈ w.answered, x.1.length ≠ 0) → Asking id hint (w, remaining)

theorem length_bodyCall (w : World) (id : RequestId) (len : Nat) :
    (bodyCall w id len).length = .ofNat len := by
  change UInt32.ofNat (w.buffer.prepare len).spare.length = _
  rw [DynamicBuffer.length_spare_prepare]

theorem calls_recieveBody {w : World} (hw : w.pending = []) (h : Handler) (id : RequestId)
    (len : Nat) :
    calls (w.recieveBody h id len) = w.answered.map Prod.fst ++ [bodyCall w id len] := by
  simp [calls, World.recieveBody, World.pend, hw, bodyCall]

theorem step_supplied {L : Layout} {w : World} (hw : w.pending = []) {h : Handler}
    {id : RequestId} {len : Nat} {remaining : Bytes} {r : Report} {s : World × Bytes} :
    (supplied L).step (w.recieveBody h id len, remaining) r = some s ↔
      supplies remaining (bodyCall w id len) r = true ∧
        ((w.recieveBody h id len).answer L r, after remaining r) = s := by
  simp [supplied, World.recieveBody, World.pend, hw, bodyCall]

theorem supplied_of_completed {L : Layout} {s : World × Bytes} (hs : Completed s.1)
    (r : Report) : (supplied L).step s r = none := by
  simp [supplied, hs.1]

theorem supplies_nil {c : Call} {r : Report} (h : supplies [] c r = true) :
    r.code = ErrorCode.handleEof ∧ r.written = [] ∧ r.len = 0 := by
  simpa [supplies] using h

theorem supplies_of_ne_nil {remaining : Bytes} (hne : remaining ≠ []) {c : Call} {r : Report} :
    supplies remaining c r = true ↔
      r.code = 0 ∧ r.written <+: remaining ∧ r.written.length ≤ c.length.toNat ∧
        (c.length ≠ 0 → r.written ≠ []) ∧ r.len = r.written.length := by
  simp only [supplies, hne, if_false, decide_eq_true_eq]

theorem after_of_success {remaining rest : Bytes} {r : Report} (hcode : r.code = 0)
    (hrest : r.written ++ rest = remaining) : after remaining r = rest := by
  simp [after, hcode, ← hrest]

theorem asking_step {L : Layout} {id : RequestId} {hint : Nat} (hhint : UInt32.ofNat hint ≠ 0)
    {s s' : World × Bytes} {r : Report} (hs : Asking id hint s)
    (hstep : (supplied L).step s r = some s') :
    Asking id hint s' ∧ workload s' < workload s := by
  rcases hs with @⟨w, remaining, len, hw, hhandled, hroom, hlen⟩ | ⟨hdone, -⟩
  · obtain ⟨hsupplies, rfl⟩ := (step_supplied hw).mp hstep
    have hcalls : ∀ x ∈ w.answered ++ [(bodyCall w id len, r)], x.1.length ≠ 0 := by
      intro x hx
      rcases List.mem_append.mp hx with hx | hx
      · exact hroom x hx
      · rw [List.mem_singleton.mp hx, length_bodyCall]
        exact hlen
    rw [workload_recieveBody]
    by_cases hnil : remaining = []
    · subst hnil
      obtain ⟨hcode, hwritten, hzero⟩ := supplies_nil hsupplies
      have hr : r.len = r.written.length := by rw [hzero, hwritten, List.length_nil]
      rw [answer_eof hw L id hint len hcode hr]
      refine ⟨.ended ⟨hw, ?_⟩ hcalls, (workload_over hw _).trans_lt ?_⟩
      · change (w.handled ++ [_]).length = 1
        rw [hhandled]
        rfl
      · simp [after, hcode]
    · obtain ⟨hcode, ⟨rest, hrest⟩, -, hnonempty, hr⟩ := (supplies_of_ne_nil hnil).mp hsupplies
      have hpos : 0 < r.written.length := by
        rw [length_bodyCall] at hnonempty
        exact List.length_pos_iff.mpr (hnonempty hlen)
      rw [answer_success hw L id hint len hcode hr, after_of_success hcode hrest,
        workload_recieveBody, ← hrest, List.length_append]
      refine ⟨.waiting hw hhandled hcalls ?_, by omega⟩
      split
      · decide
      · exact hhint
  · rw [supplied_of_completed hdone] at hstep
    cases hstep

theorem asking_progress {L : Layout} {id : RequestId} {hint : Nat} (s : World × Bytes)
    (hs : Asking id hint s) (hdone : ¬ Completed s.1) :
    ∃ r s', (supplied L).step s r = some s' := by
  rcases hs with @⟨w, remaining, len, hw, -, -, hlen⟩ | ⟨h, -⟩
  · rcases remaining with _ | ⟨b, rest⟩
    · exact ⟨{ result := ErrorCode.handleEof }, _, (step_supplied hw).mpr ⟨rfl, rfl⟩⟩
    · refine ⟨{ result := 0, written := [b], length := 1 }, _,
        (step_supplied hw).mpr ⟨(supplies_of_ne_nil (List.cons_ne_nil b rest)).mpr ?_, rfl⟩⟩
      have hpos : 0 < (UInt32.ofNat len).toNat :=
        Nat.pos_of_ne_zero fun hzero => hlen (UInt32.toNat_inj.mp hzero)
      rw [length_bodyCall]
      exact ⟨rfl, ⟨rest, rfl⟩, hpos, fun _ => List.cons_ne_nil b [], rfl⟩
  · exact absurd h hdone

theorem calls_of_asking {id : RequestId} {hint : Nat} {s : World × Bytes}
    (hs : Asking id hint s) : ∀ c ∈ calls s.1, c.length ≠ 0 := by
  intro c hc
  rcases hs with @⟨w, remaining, len, hw, -, hroom, hlen⟩ | @⟨w, remaining, hdone, hroom⟩
  · rw [calls_recieveBody hw] at hc
    rcases List.mem_append.mp hc with hc | hc
    · obtain ⟨x, hx, rfl⟩ := List.mem_map.mp hc
      exact hroom x hx
    · rw [List.mem_singleton.mp hc, length_bodyCall]
      exact hlen
  · simp only [calls, hdone.1, List.map_nil, List.append_nil] at hc
    obtain ⟨x, hx, rfl⟩ := List.mem_map.mp hc
    exact hroom x hx

theorem Terminates.hint_ne_zero {L : Layout} {ndebug : Bool} {buffer : DynamicBuffer UInt8}
    {id : RequestId} {hint : UInt64} {body : Bytes}
    (h : Terminates L ndebug buffer id hint body) : hint.toUInt32 ≠ 0 := by
  have hcall : bodyCall { ndebug, buffer } id hint.toNat ∈
      calls (start L ndebug buffer id hint.toNat) := by
    rw [start_eq, calls_recieveBody rfl]
    exact List.mem_append_right _ (List.mem_singleton_self _)
  have hlength := h.room [] _ rfl _ hcall
  rwa [length_bodyCall] at hlength

/-- The operation terminates for a hint exactly if something is left of the hint
in 32 bits. -/
theorem terminates_iff (L : Layout) (ndebug : Bool) (buffer : DynamicBuffer UInt8)
    (id : RequestId) (hint : UInt64) (body : Bytes) :
    Terminates L ndebug buffer id hint body ↔ hint.toUInt32 ≠ 0 := by
  refine ⟨Terminates.hint_ne_zero, fun hhint => ?_⟩
  have hstart : Asking id hint.toNat (start L ndebug buffer id hint.toNat, body) := by
    rw [start_eq]
    exact .waiting rfl rfl (fun x hx => absurd hx List.not_mem_nil) hhint
  constructor
  · intro reports s hrun
    exact calls_of_asking (System.run_preserves
      (fun _ _ _ hs hstep => (asking_step hhint hs hstep).1) hstart hrun)
  · have hwork : workload (start L ndebug buffer id hint.toNat, body) = body.length + 1 := by
      rw [start_eq, workload_recieveBody]
    rw [← hwork]
    exact System.within_of_measure workload asking_progress
      (fun _ _ _ hs _ hstep => asking_step hhint hs hstep) hstart

theorem not_terminates_zero : ¬ Terminates .x64 false {} [0, 0, 0, 0, 0, 0, 0, 1] 0 [65] :=
  fun h => h.hint_ne_zero rfl

/-- A call for nothing is outstanding and the whole body remains. -/
def Starved (id : RequestId) (body : Bytes) (s : World × Bytes) : Prop :=
  ∃ w : World, w.pending = [] ∧ s = (w.recieveBody (receiving id 0) id 0, body)

theorem starved_step {L : Layout} {id : RequestId} {body : Bytes} (hbody : body ≠ [])
    {s s' : World × Bytes} {r : Report} (hs : Starved id body s)
    (hstep : (supplied L).step s r = some s') : Starved id body s' := by
  obtain ⟨w, hw, rfl⟩ := hs
  obtain ⟨hsupplies, rfl⟩ := (step_supplied hw).mp hstep
  obtain ⟨hcode, -, hlength, -, hr⟩ := (supplies_of_ne_nil hbody).mp hsupplies
  rw [length_bodyCall] at hlength
  have hnil : r.written = [] := List.length_eq_zero_iff.mp (Nat.le_zero.mp hlength)
  refine ⟨ReceiveBody.committed w id 0 r, hw, ?_⟩
  rw [answer_success hw L id 0 0 hcode hr, after_of_success hcode (by rw [hnil]; rfl)]
  rfl

/-- With a hint of 0 the operation is never completed, whatever HTTP.sys answers
and however many calls are made, and HTTP.sys can always answer. -/
theorem zeroHint_never_completes (L : Layout) (ndebug : Bool) (buffer : DynamicBuffer UInt8)
    (id : RequestId) {body : Bytes} (hbody : body ≠ []) {reports : List Report}
    {s : World × Bytes}
    (hrun : (supplied L).run (start L ndebug buffer id 0, body) reports = some s) :
    ¬ Completed s.1 ∧ ∃ r s', (supplied L).step s r = some s' := by
  have hstart : Starved id body (start L ndebug buffer id 0, body) :=
    ⟨{ ndebug, buffer }, rfl, rfl⟩
  obtain ⟨w, hw, rfl⟩ :=
    System.run_preserves (fun _ _ _ hs hstep => starved_step hbody hs hstep) hstart hrun
  refine ⟨?_, { result := 0 }, _, (step_supplied hw).mpr ⟨?_, rfl⟩⟩
  · intro hdone
    have hpending := hdone.1
    simp [World.recieveBody, World.pend] at hpending
  · rw [supplies_of_ne_nil hbody, length_bodyCall]
    exact ⟨rfl, List.nil_prefix, Nat.le_refl 0, fun h => absurd rfl h, rfl⟩

end Winasio.ReceiveBodyHint
