import Mathlib.Data.List.Chain
import Winasio.QueueHandle

/-!
`async_receive`: the header of a request is received into a buffer that grows
to the size HTTP.sys asks for.
-/

namespace Winasio.ReceiveRequest

open Winasio.Transition
open Winasio.QueueHandle

/-- What HTTP.sys may answer to a call. A request is delivered completely, of a
request that is too long at least the fixed part, and the size a packet asks
for exceeds the size that was offered; no buffer that can hold the fixed part
is too small to be accepted. -/
def admits (L : Layout) (c : Call) (r : Report) : Bool :=
  r.written.length ≤ c.length.toNat ∧
    (r.code = 0 → L.sizeofHttpRequest ≤ r.written.length ∧ r.len = r.written.length) ∧
    (r.code = ErrorCode.moreData → L.sizeofHttpRequest ≤ r.written.length ∧
      (r.queued = true → c.length.toNat < r.len)) ∧
    (r.code = ErrorCode.insufficientBuffer → c.length.toNat < L.sizeofHttpRequest)

/-- `async_receive` on a handle, with HTTP.sys answering one call after the
other. -/
def system (L : Layout) : System World Report :=
  ⟨fun w r =>
    match w.pending with
    | [] => none
    | (c, _) :: _ => if admits L c r then some (w.answer L r) else none⟩

def start (L : Layout) (ndebug : Bool) (buffer : DynamicBuffer UInt8) : World :=
  World.asyncReceive { ndebug, buffer } L .token

abbrev receiving : Handler := .asyncReceiveOp .recieving .token

theorem start_eq (L : Layout) (ndebug : Bool) (buffer : DynamicBuffer UInt8) :
    start L ndebug buffer =
      World.recieve { ndebug, buffer } L receiving (L.sizeofHttpRequest + 1024) true := rfl

def requestCall (L : Layout) (w : World) (len : Nat) (init : Bool) : Call :=
  (w.prepareRequest L len init).requestCall L

def answered (L : Layout) (w : World) (len : Nat) (init : Bool) (r : Report) : World :=
  (w.prepareRequest L len init).store (requestCall L w len init) r

theorem length_spare_prepareRequest {L : Layout} {len : Nat} (hlen : L.sizeofHttpRequest ≤ len)
    (w : World) (init : Bool) : (w.prepareRequest L len init).buffer.spare.length = len := by
  have hspare := DynamicBuffer.length_spare_prepare w.buffer len
  cases init with
  | false => exact hspare
  | true =>
      change (L.setNullId (w.buffer.prepare len).spare).length = len
      rw [L.length_setNullId (by omega), hspare]

theorem committed_prepareRequest (L : Layout) (w : World) (len : Nat) (init : Bool) :
    (w.prepareRequest L len init).buffer.committed = w.buffer.committed := by
  cases init <;> rfl

theorem requestCall_buffer {L : Layout} {len : Nat} (hlen : L.sizeofHttpRequest ≤ len)
    (hlt : len < 2 ^ 32) (w : World) (init : Bool) :
    (requestCall L w len init).nonNull = true ∧
      (requestCall L w len init).length.toNat = len := by
  have hspare := length_spare_prepareRequest hlen w init
  have hpos := L.requestId_le
  constructor
  · have : (w.prepareRequest L len init).buffer.vector ≠ [] := by
      intro hnil
      have := (List.append_eq_nil_iff.mp hnil).2
      rw [this, List.length_nil] at hspare
      omega
    simpa [requestCall, World.requestCall] using this
  · change (UInt32.ofNat (w.prepareRequest L len init).buffer.spare.length).toNat = len
    rw [hspare, UInt32.toNat_ofNat']
    omega

/-- One call of the operation: what HTTP.sys may answer, and what the operation
does then. -/
theorem answer_recieve {L : Layout} {w : World} {len : Nat} {init : Bool} {r : Report}
    (hw : w.pending = []) (hlen : L.sizeofHttpRequest ≤ len) (hlt : len < 2 ^ 32)
    (hr : admits L (requestCall L w len init) r = true) :
    let w' := answered L w len init r
    let t := (w.recieve L receiving len init).answer L r
    (r.code = 0 ∧ L.sizeofHttpRequest ≤ r.written.length ∧ r.len = r.written.length ∧
      t = Handler.token.invoke L .success r.len
        { w' with buffer := .ofVector (w.buffer.committed ++ r.written) }) ∨
    (r.code = ErrorCode.handleEof ∧ t = Handler.token.invoke L .success r.len w') ∨
    (r.code = ErrorCode.moreData ∧ L.sizeofHttpRequest ≤ r.written.length ∧
      (r.queued = true → len < r.len) ∧
      t = w'.check (r.len > w.buffer.size) fun w' => w'.recieve L receiving r.len false) ∨
    (r.code ≠ 0 ∧ r.code ≠ ErrorCode.handleEof ∧ r.code ≠ ErrorCode.moreData ∧
      t = Handler.token.invoke L ⟨r.code⟩ r.len w') := by
  obtain ⟨-, hsuccess, hmore, hinsufficient⟩ := of_decide_eq_true hr
  rw [(requestCall_buffer hlen hlt w init).2] at hmore hinsufficient
  have hasserts : (requestCall L w len init).api.asserts r.result = true := by
    refine decide_eq_true fun hresult => ?_
    have hcode : r.code = ErrorCode.insufficientBuffer := by
      simp [Report.code, Report.queued, hresult, ErrorCode.insufficientBuffer,
        ErrorCode.ioPending]
    exact absurd (hinsufficient hcode) (by omega)
  have hanswer : (w.recieve L receiving len init).answer L r =
      receiving.invoke L ⟨r.code⟩ r.len (answered L w len init r) :=
    World.answer_pend (w := w.prepareRequest L len init) hw L _ _ hasserts
  have hcommitted := committed_prepareRequest L w len init
  intro w' t
  rw [show t = _ from hanswer]
  by_cases hzero : r.code = 0
  · obtain ⟨hwritten, hlength⟩ := hsuccess hzero
    refine .inl ⟨hzero, hwritten, hlength, ?_⟩
    have hcommit : ((w.prepareRequest L len init).buffer.write r.written).commit
        r.written.length = .ofVector (w.buffer.committed ++ r.written) := by
      rw [DynamicBuffer.commit_write, hcommitted]
    simp only [Handler.invoke, hzero, ErrorCode.failed, hlength]
    rw [← hcommit]
    rfl
  · by_cases heof : r.code = ErrorCode.handleEof
    · exact .inr (.inl ⟨heof, by
        simp [Handler.invoke, ErrorCode.failed, heof, ErrorCode.handleEof, w']⟩)
    · by_cases hdata : r.code = ErrorCode.moreData
      · obtain ⟨hwritten, hgrows⟩ := hmore hdata
        refine .inr (.inr (.inl ⟨hdata, hwritten, hgrows, ?_⟩))
        have hsize : w'.buffer.size = w.buffer.size := congrArg List.length hcommitted
        simp only [Handler.invoke, hdata, ← hsize]
        rfl
      · refine .inr (.inr (.inr ⟨hzero, heof, hdata, ?_⟩))
        simp [Handler.invoke, ErrorCode.failed, hzero, heof, hdata, w']

def history (w : World) : List (Call × Option Report) :=
  w.answered.map (fun x => (x.1, some x.2)) ++ w.pending.map fun x => (x.1, none)

/-- A retry: the call before ended with `ERROR_MORE_DATA`, the new one offers
more and asks for the request the kernel named then. -/
def Retried (L : Layout) (p q : Call × Option Report) : Prop :=
  ∃ r, p.2 = some r ∧ r.code = ErrorCode.moreData ∧
    p.1.length.toNat < q.1.length.toNat ∧ q.1.id = L.requestId r.written

structure Sound (L : Layout) (calls : List (Call × Option Report)) : Prop where
  buffers : ∀ x ∈ calls, x.1.nonNull = true ∧ L.sizeofHttpRequest ≤ x.1.length.toNat
  retries : calls.IsChain (Retried L)

structure RetrySafe (L : Layout) (w : World) : Prop where
  sound : Sound L (history w)
  assertsHold : w.assertsHold = true

theorem sound_concat {L : Layout} {calls : List (Call × Option Report)} {c : Call}
    {answer : Option Report} :
    Sound L (calls ++ [(c, answer)]) ↔ Sound L calls ∧
      (c.nonNull = true ∧ L.sizeofHttpRequest ≤ c.length.toNat) ∧
      ∀ p ∈ calls.getLast?, Retried L p (c, none) := by
  constructor
  · rintro ⟨hbuffers, hretries⟩
    obtain ⟨hcalls, -, hlast⟩ := List.isChain_append.mp hretries
    refine ⟨⟨fun x hx => hbuffers x (List.mem_append_left _ hx), hcalls⟩,
      hbuffers (c, answer) List.mem_concat_self, fun p hp => ?_⟩
    exact hlast p hp (c, answer) rfl
  · rintro ⟨⟨hbuffers, hretries⟩, hc, hlast⟩
    constructor
    · intro x hx
      rcases List.mem_append.mp hx with hx | hx
      · exact hbuffers x hx
      · rw [List.mem_singleton.mp hx]
        exact hc
    · refine List.isChain_append.mpr ⟨hretries, List.isChain_singleton _, fun p hp y hy => ?_⟩
      obtain rfl : (c, answer) = y := by simpa using hy
      exact hlast p hp

theorem history_recieve {L : Layout} {w : World} (hw : w.pending = []) (len : Nat) (init : Bool) :
    history (w.recieve L receiving len init) =
      history w ++ [(requestCall L w len init, none)] := by
  simp [history, World.recieve, World.pend, World.prepareRequest, requestCall, hw]

theorem history_answered {L : Layout} {w : World} (hw : w.pending = []) (len : Nat) (init : Bool)
    (r : Report) :
    history (answered L w len init r) =
      history w ++ [(requestCall L w len init, some r)] := by
  simp [history, answered, World.store, World.prepareRequest, hw]

theorem id_requestCall {L : Layout} {w : World} {len len' : Nat} {init : Bool} {r : Report}
    (hwritten : L.sizeofHttpRequest ≤ r.written.length) (hlen' : L.sizeofHttpRequest ≤ len') :
    (requestCall L (answered L w len init r) len' false).id = L.requestId r.written := by
  change L.requestId (resize (r.written ++
    (w.prepareRequest L len init).buffer.spare.drop r.written.length) len') = _
  apply L.requestId_congr (Nat.le_refl _)
  rw [take_resize (by rw [List.length_append]; omega) hlen',
    List.take_append_of_le_length hwritten]

/-- The states of a run on an empty buffer in which no call returns
`ERROR_MORE_DATA` itself. -/
inductive Retrying (L : Layout) : World → Prop
  | waiting {w : World} {len : Nat} {init : Bool} : w.pending = [] →
      w.buffer.committed = [] → L.sizeofHttpRequest ≤ len → len < 2 ^ 32 →
      RetrySafe L (w.recieve L receiving len init) →
      Retrying L (w.recieve L receiving len init)
  | ended {w : World} : w.pending = [] → RetrySafe L w → Retrying L w

theorem retrying_start (L : Layout) (ndebug : Bool) : Retrying L (start L ndebug {}) := by
  rw [start_eq]
  have hlen : L.sizeofHttpRequest ≤ L.sizeofHttpRequest + 1024 := Nat.le_add_right _ _
  obtain ⟨hnonNull, hlength⟩ :=
    requestCall_buffer hlen L.initialSize_lt { ndebug, buffer := {} } true
  refine .waiting rfl rfl hlen L.initialSize_lt ⟨?_, rfl⟩
  rw [history_recieve rfl]
  refine sound_concat.mpr ⟨⟨by simp [history], by simp [history]⟩, ⟨hnonNull, ?_⟩,
    by simp [history]⟩
  rw [hlength]
  exact hlen

theorem queued_of_moreData {r : Report} (hr : r.result ≠ ErrorCode.moreData)
    (hmore : r.code = ErrorCode.moreData) : r.queued = true := by
  by_contra hqueued
  simp [Report.code, hqueued, hr] at hmore

theorem len_lt_of_queued {r : Report} (hqueued : r.queued = true) : r.len < 2 ^ 32 := by
  rw [Report.len, hqueued]
  exact r.length.toNat_lt

theorem pending_of_step {L : Layout} {w w' : World} {r : Report}
    (h : (system L).step w r = some w') : w.pending ≠ [] ∧ w.answer L r = w' := by
  rcases hw : w.pending with _ | ⟨⟨c, h'⟩, rest⟩
  · simp [system, hw] at h
  · simp only [system, hw, Option.ite_none_right_eq_some] at h
    exact ⟨List.cons_ne_nil _ _, Option.some.inj h.2⟩

theorem step_recieve {L : Layout} {w w' : World} {len : Nat} {init : Bool} {r : Report}
    (hw : w.pending = [])
    (h : (system L).step (w.recieve L receiving len init) r = some w') :
    admits L (requestCall L w len init) r = true ∧
      (w.recieve L receiving len init).answer L r = w' := by
  simpa [system, World.recieve, World.pend, hw, requestCall, World.prepareRequest] using h

theorem retrying_step {L : Layout} {w w' : World} {r : Report} (hw : Retrying L w)
    (hr : r.result ≠ ErrorCode.moreData) (hstep : (system L).step w r = some w') :
    Retrying L w' := by
  rcases hw with @⟨w, len, init, hpending, hcommitted, hlen, hlt, hsound, hasserts⟩ |
    ⟨hpending, -⟩
  · obtain ⟨hadmits, rfl⟩ := step_recieve hpending hstep
    rw [history_recieve hpending] at hsound
    have hnext : (answered L w len init r).pending = [] := hpending
    have hanswered : Sound L (history (answered L w len init r)) := by
      rw [history_answered hpending]
      exact sound_concat.mpr (sound_concat.mp hsound)
    rcases answer_recieve hpending hlen hlt hadmits with
      ⟨-, -, -, ht⟩ | ⟨-, ht⟩ | ⟨hmore, hwritten, hgrows, ht⟩ | ⟨-, -, -, ht⟩
    · rw [ht]
      exact .ended hpending ⟨hanswered, hasserts⟩
    · rw [ht]
      exact .ended hpending ⟨hanswered, hasserts⟩
    · have hqueued := queued_of_moreData hr hmore
      have hlen' : len < r.len := hgrows hqueued
      have hlt' := len_lt_of_queued hqueued
      have hsize : decide (r.len > w.buffer.size) = true := by
        simp only [DynamicBuffer.size, hcommitted, List.length_nil]
        exact decide_eq_true (by omega)
      rw [ht, hsize]
      refine .waiting hpending ((committed_prepareRequest L w len init).trans hcommitted)
        (by omega) hlt' ⟨?_, hasserts⟩
      rw [history_recieve hnext]
      have hlarge : L.sizeofHttpRequest ≤ r.len := by omega
      obtain ⟨hnonNull, hlength⟩ :=
        requestCall_buffer hlarge hlt' (answered L w len init r) false
      refine sound_concat.mpr ⟨hanswered, ⟨hnonNull, by omega⟩, fun p hp => ?_⟩
      rw [history_answered hpending, List.getLast?_concat] at hp
      obtain rfl := Option.some.inj hp
      refine ⟨r, rfl, hmore, ?_, id_requestCall hwritten (by omega)⟩
      rw [(requestCall_buffer hlen hlt w init).2, hlength]
      exact hlen'
    · rw [ht]
      exact .ended hpending ⟨hanswered, hasserts⟩
  · simp [system, hpending] at hstep

def Shape (w : World) : Prop :=
  w.pending = [] ∨ ∃ c, c.api = .receiveHttpRequest ∧ w.pending = [(c, receiving)]

theorem shape_recieve {L : Layout} {w : World} (hw : w.pending = []) (len : Nat) (init : Bool) :
    Shape (w.recieve L receiving len init) :=
  .inr ⟨requestCall L w len init, rfl, by
    simp [World.recieve, World.pend, World.prepareRequest, requestCall, hw]⟩

theorem shape_check {w : World} (hw : w.pending = []) (condition : Bool) {next : World → World}
    (hnext : ∀ w : World, w.pending = [] → Shape (next w)) : Shape (w.check condition next) := by
  unfold World.check
  split
  · exact hnext w hw
  · split
    · exact hnext _ hw
    · exact .inl hw

theorem shape_invoke {L : Layout} {w : World} (hw : w.pending = []) (ec : ErrorCode) (len : Nat) :
    Shape (receiving.invoke L ec len w) := by
  simp only [Handler.invoke]
  split
  · split
    · exact .inl hw
    · split
      · exact shape_check hw _ fun w hw => shape_recieve hw len false
      · exact .inl hw
  · exact .inl hw

theorem shape_answer {L : Layout} {w : World} (hw : Shape w) (r : Report) :
    Shape (w.answer L r) := by
  rcases hw with hw | ⟨c, -, hw⟩
  · exact .inl (by simp [World.answer, hw])
  · simp only [World.answer, hw, completions_eq, List.foldl_cons, List.foldl_nil]
    exact shape_check rfl _ fun w hw => shape_invoke hw _ _

theorem assertsHold_check {w : World} {condition : Bool} {next : World → World}
    (hnext : ∀ w : World, (next w).assertsHold = true → w.assertsHold = true)
    (h : (w.check condition next).assertsHold = true) :
    condition = true ∧ w.assertsHold = true := by
  unfold World.check at h
  split at h
  · exact ⟨by assumption, hnext w h⟩
  · split at h
    · exact absurd (hnext _ h) Bool.false_ne_true
    · exact absurd h Bool.false_ne_true

theorem assertsHold_invoke {L : Layout} {w : World} {ec : ErrorCode} {len : Nat}
    (h : (receiving.invoke L ec len w).assertsHold = true) :
    w.assertsHold = true ∧ (ec.value = ErrorCode.moreData → w.buffer.size < len) := by
  simp only [Handler.invoke] at h
  by_cases hmore : ec.value = ErrorCode.moreData
  · have hfailed : ec.failed = true := by
      rw [ErrorCode.failed_iff, hmore]
      decide
    rw [if_pos hfailed, hmore, if_neg (by decide), if_pos rfl] at h
    have hrecieve : ∀ w : World,
        (w.recieve L receiving len false).assertsHold = true → w.assertsHold = true :=
      fun _ h => h
    obtain ⟨hsize, hw⟩ := assertsHold_check hrecieve h
    exact ⟨hw, fun _ => of_decide_eq_true hsize⟩
  · refine ⟨?_, fun h => absurd h hmore⟩
    rw [if_neg hmore] at h
    split at h
    · split at h
      · exact h
      · exact h
    · exact h

/-- A call that returns `ERROR_MORE_DATA` itself has no length to retry with,
and the assertion fails. -/
theorem result_of_assertsHold {L : Layout} {w : World} {r : Report} (hw : Shape w)
    (hpending : w.pending ≠ []) (h : (w.answer L r).assertsHold = true) :
    w.assertsHold = true ∧ r.result ≠ ErrorCode.moreData := by
  obtain ⟨c, -, hc⟩ := hw.resolve_left hpending
  simp only [World.answer, hc, completions_eq, List.foldl_cons, List.foldl_nil] at h
  have hchecked := assertsHold_check (fun w h => (assertsHold_invoke h).1) h
  refine ⟨hchecked.2, fun hresult => ?_⟩
  rw [hchecked.1, World.check_true] at h
  have hqueued : r.queued = false := by
    simp [Report.queued, hresult, ErrorCode.moreData, ErrorCode.ioPending]
  have hlen : r.len = 0 := by simp [Report.len, hqueued]
  have hgrows := (assertsHold_invoke h).2 (by simp [Report.code, hqueued, hresult])
  omega

theorem result_of_run {L : Layout} {w w' : World} {script : List Report} (hw : Shape w)
    (hrun : (system L).run w script = some w') (h : w'.assertsHold = true) :
    w.assertsHold = true ∧ ∀ r ∈ script, r.result ≠ ErrorCode.moreData := by
  induction script generalizing w with
  | nil =>
      cases hrun
      exact ⟨h, by simp⟩
  | cons r script ih =>
      obtain ⟨w₁, hstep, hrest⟩ := System.run_cons_eq_some.mp hrun
      obtain ⟨hpending, rfl⟩ := pending_of_step hstep
      obtain ⟨hasserts, hscript⟩ := ih (shape_answer hw r) hrest
      obtain ⟨hw₀, hr⟩ := result_of_assertsHold hw hpending hasserts
      exact ⟨hw₀, List.forall_mem_cons.mpr ⟨hr, hscript⟩⟩

theorem retrying_run {L : Layout} {w w' : World} {script : List Report} (hw : Retrying L w)
    (hscript : ∀ r ∈ script, r.result ≠ ErrorCode.moreData)
    (hrun : (system L).run w script = some w') : Retrying L w' :=
  System.run_preserves_of_forall (fun _ _ _ hw hr hstep => retrying_step hw hr hstep) hw
    hscript hrun

theorem Retrying.retrySafe {L : Layout} {w : World} (hw : Retrying L w) : RetrySafe L w := by
  rcases hw with ⟨-, -, -, -, hw⟩ | ⟨-, hw⟩
  · exact hw
  · exact hw

/-- On an empty buffer the retries of `async_receive` are safe in exactly the
runs in which no call returns `ERROR_MORE_DATA` itself. -/
theorem retrySafe_iff (L : Layout) (ndebug : Bool) (script : List Report) (w : World)
    (hrun : (system L).run (start L ndebug {}) script = some w) :
    RetrySafe L w ↔ ∀ r ∈ script, r.result ≠ ErrorCode.moreData := by
  constructor
  · intro h
    have hstart : Shape (start L ndebug {}) := by
      rw [start_eq]
      exact shape_recieve rfl _ _
    exact (result_of_run hstart hrun h.assertsHold).2
  · intro hscript
    exact (retrying_run (retrying_start L ndebug) hscript hrun).retrySafe

/-- A request of 3000 bytes, with the size reported by a packet. -/
theorem retrySafe_packet :
    ∃ w, (system .x64).run (start .x64 false {})
        [{ result := ErrorCode.ioPending, status := ErrorCode.moreData, length := 3000
           written := List.replicate 864 7 },
          { result := 0, length := 864, written := List.replicate 864 7 }] = some w ∧
      RetrySafe .x64 w := by
  have hrun : ((system .x64).run (start .x64 false {})
      [{ result := ErrorCode.ioPending, status := ErrorCode.moreData, length := 3000
         written := List.replicate 864 7 },
        { result := 0, length := 864, written := List.replicate 864 7 }]).isSome = true := by
    decide +kernel
  obtain ⟨w, hw⟩ := Option.isSome_iff_exists.mp hrun
  exact ⟨w, hw, (retrySafe_iff .x64 false _ w hw).mpr (by decide)⟩

/-- The same request, with `ERROR_MORE_DATA` returned by the call: the next one
is made without a buffer. Where assertions are compiled out, the code reads the
`RequestId` for it through a null pointer before it makes the call. -/
theorem not_retrySafe_return :
    ∃ w, (system .x64).run (start .x64 true {})
        [{ result := ErrorCode.moreData, written := List.replicate 864 7 }] = some w ∧
      w.pending.map (fun x => (x.1.nonNull, x.1.length)) = [(false, 0)] ∧
      w.assertsHold = false ∧ ¬ RetrySafe .x64 w := by
  have hrun : (((system .x64).run (start .x64 true {})
      [{ result := ErrorCode.moreData, written := List.replicate 864 7 }]).map fun w =>
        (w.pending.map (fun x => (x.1.nonNull, x.1.length)), w.assertsHold)) =
      some ([(false, 0)], false) := by
    decide +kernel
  obtain ⟨w, hw, hend⟩ := Option.map_eq_some_iff.mp hrun
  obtain ⟨hpending, hasserts⟩ := Prod.mk.inj hend
  refine ⟨w, hw, hpending, hasserts, fun hsafe => ?_⟩
  rw [hsafe.assertsHold] at hasserts
  cases hasserts

end Winasio.ReceiveRequest
