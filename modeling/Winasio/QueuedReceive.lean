import Winasio.ReceiveOutcome
import Winasio.RequestQueue

/-!
An operation that receives a header or a body from a queue with many requests:
what one answer does to the operation and to the queue.
-/

namespace Winasio.QueuedReceive

open Winasio.QueueHandle
open Winasio.RequestQueue
open Winasio.ReceiveRequest (requestCall receiving)

variable {L : Layout} {q : Queue}

/-- An operation between two calls, which has received nothing. -/
structure Between (w : World) : Prop where
  pending : w.pending = []
  handled : w.handled = []
  committed : w.buffer.committed = []

/-- `async_receive` while it waits: for any request; for the request whose size it
was told; without a buffer, where a call has returned `ERROR_MORE_DATA` itself
and the code has read the identifier through a null pointer; or for nothing,
since that ended the program. -/
inductive Asks (L : Layout) (ndebug : Bool) (q : Queue) : Option RequestId → World → Prop
  | any : Asks L ndebug q none (ReceiveRequest.start L ndebug {})
  | again {w : World} {e : Entry} : Between w → e ∈ q → e.delivery = .announced →
      (requestCall L w e.header.length false).id = e.id L →
      Asks L ndebug q (some (e.id L)) (w.recieve L receiving e.header.length false)
  | blind {w : World} : Between w → Asks L ndebug q none (w.recieve L receiving 0 false)
  | aborted {w : World} : w.pending = [] → w.handled = [] → Asks L ndebug q none w

theorem Asks.handled {ndebug : Bool} {owner : Option RequestId} {w : World}
    (h : Asks L ndebug q owner w) : w.handled = [] := by
  cases h with
  | any => rfl
  | again hw _ _ _ => exact hw.handled
  | blind hw => exact hw.handled
  | aborted _ hhandled => exact hhandled

/-- What the call asks for is in the buffer as a whole: the header of a request that
no one has received yet, or the body of the one it names. -/
def Filled (L : Layout) (c : Call) (e : Entry) (buffer : Bytes) : Prop :=
  match c.api with
  | .receiveHttpRequest => e.isDelivered = false ∧ buffer = e.header
  | .receiveRequestEntityBody => e.id L = c.id ∧ buffer = e.body

/-- The operation has the claim to a request that it may be answered with. -/
def Claims (q : Queue) (L : Layout) (owner : Option RequestId) (e : Entry) : Prop :=
  e ∈ q ∧ (owner = none ∧ e.delivery = .waiting ∨
    owner = some (e.id L) ∧ e.delivery = .announced)

theorem Claims.isDelivered {owner : Option RequestId} {e : Entry} (h : Claims q L owner e) :
    e.isDelivered = false := by
  obtain ⟨-, ⟨-, hdelivery⟩ | ⟨-, hdelivery⟩⟩ := h
  · rw [Entry.isDelivered, hdelivery]
  · rw [Entry.isDelivered, hdelivery]

/-- What an answer makes of the operation and of the queue. -/
inductive HeaderAnswered (L : Layout) (ndebug : Bool) (q : Queue) (owner : Option RequestId)
    (assertsHold : Bool) (r : Report) : Queue → World → Prop
  | delivered {w : World} {e : Entry} (len : Nat) : Claims q L owner e → r.code = 0 →
      w.handled = [(.success, len)] → w.buffer.committed = e.header →
      w.assertsHold = assertsHold →
      HeaderAnswered L ndebug q owner assertsHold r
        (q.update L (e.id L) fun e => .delivered e.body) w
  | failed {w : World} (len : Nat) : r.code ≠ 0 → r.code ≠ ErrorCode.moreData →
      w.handled = [(⟨r.code⟩, len)] → HeaderAnswered L ndebug q owner assertsHold r q w
  | announced {w : World} {e : Entry} {owner' : Option RequestId} : Claims q L none e →
      owner = none → r.code = ErrorCode.moreData →
      (owner' = some (e.id L) ∧ w.assertsHold = assertsHold ∨
        owner' = none ∧ r.queued = false) →
      Asks L ndebug (q.update L (e.id L) fun _ => .announced) owner' w →
      HeaderAnswered L ndebug q owner assertsHold r (q.update L (e.id L) fun _ => .announced) w
  | aborted {w : World} : r.code ≠ 0 → r.queued = false → w.pending = [] → w.handled = [] →
      HeaderAnswered L ndebug q owner assertsHold r q w

theorem claims_of_asked_nullId {c : Call} {e : Entry} (hc : c.id = nullId) (he : e ∈ q)
    (h : e.asked L c = true) : Claims q L none e := by
  rw [Entry.asked, if_pos hc] at h
  exact ⟨he, .inl ⟨rfl, of_decide_eq_true h⟩⟩

theorem claims_of_asked {c : Call} {e : Entry} (hc : c.id ≠ nullId) (he : e ∈ q)
    (h : e.asked L c = true) : Claims q L (some c.id) e := by
  rw [Entry.asked, if_neg hc] at h
  obtain ⟨hid, hdelivery⟩ := of_decide_eq_true h
  exact ⟨he, .inr ⟨by rw [hid], hdelivery⟩⟩

theorem pending_recieve {w : World} (hw : w.pending = []) (len : Nat) (init : Bool) :
    (w.recieve L receiving len init).pending = [(requestCall L w len init, receiving)] := by
  simp [World.recieve, World.pend, World.prepareRequest, requestCall, hw]

theorem Asks.api {ndebug : Bool} {owner : Option RequestId} {w : World} {c : Call} {h : Handler}
    {rest : List (Call × Handler)} (hw : Asks L ndebug q owner w)
    (hpending : w.pending = (c, h) :: rest) : c.api = .receiveHttpRequest := by
  cases hw with
  | any =>
      rw [ReceiveRequest.start_eq, pending_recieve rfl] at hpending
      cases hpending
      rfl
  | again hw _ _ _ | blind hw =>
      rw [pending_recieve hw.pending] at hpending
      cases hpending
      rfl
  | aborted hnil _ =>
      rw [hnil] at hpending
      cases hpending

theorem id_start (L : Layout) (ndebug : Bool) :
    (requestCall L { ndebug, buffer := {} } (L.sizeofHttpRequest + 1024) true).id = nullId := by
  refine requestId_setNullId ?_
  rw [DynamicBuffer.length_spare_prepare]
  exact Nat.le_add_right _ _

theorem id_blind (w : World) : (requestCall L w 0 false).id = [] := by
  change L.requestId (resize w.buffer.spare 0) = []
  rw [resize, List.take_zero, List.nil_append, Nat.zero_sub, List.replicate_zero, requestId_nil]

/-- A call without a buffer is not answered with a request. -/
theorem blind_refused {c : Call} {r : Report} (hq : Sound L q) (hid : c.id = [])
    (hr : q.admitsHeader L c r = true) :
    r.code ≠ 0 ∧ r.code ≠ ErrorCode.moreData ∧ r.code ≠ ErrorCode.handleEof := by
  have hnone : ∀ e ∈ q, e.id L ≠ c.id := by
    intro e he hne
    have hlength := length_requestId (L := L) (hq.le_length he)
    rw [show L.requestId e.header = [] from hne.trans hid] at hlength
    cases hlength
  have hasked : ∀ e ∈ q, e.asked L c = false := by
    intro e he
    rw [Entry.asked, if_neg (by rw [hid]; decide)]
    exact decide_eq_false fun h => hnone e he h.1
  obtain ⟨-, hsuccess, hmore, -, heof⟩ := of_decide_eq_true hr
  refine ⟨fun hcode => ?_, fun hcode => ?_, fun hcode => ?_⟩
  · obtain ⟨e, he, h, -⟩ := hsuccess hcode
    exact Bool.false_ne_true ((hasked e he).symm.trans h)
  · obtain ⟨e, he, h, -⟩ := hmore hcode
    exact Bool.false_ne_true ((hasked e he).symm.trans h)
  · obtain ⟨e, he, h, -⟩ := heof hcode
    exact hnone e he h

theorem blind_answered {ndebug : Bool} {w : World} {r : Report} (hq : Sound L q) (hw : Between w)
    (hr : q.admitsHeader L (requestCall L w 0 false) r = true) :
    HeaderAnswered L ndebug q none w.assertsHold r q
      ((w.recieve L receiving 0 false).answer L r) := by
  obtain ⟨hzero, hmore, heof⟩ := blind_refused hq (id_blind w) hr
  have hfailed : (⟨r.code⟩ : ErrorCode).failed = true := ErrorCode.failed_iff.mpr hzero
  simp only [World.answer, pending_recieve hw.pending, completions_eq, List.foldl_cons,
    List.foldl_nil]
  unfold World.check
  split
  · refine .failed r.len hzero hmore ?_
    simp [Handler.invoke, hfailed, heof, hmore, World.store, World.recieve, World.pend,
      World.prepareRequest, hw.handled]
  · next hasserts =>
      split
      · refine .failed r.len hzero hmore ?_
        simp [Handler.invoke, hfailed, heof, hmore, World.store, World.recieve, World.pend,
          World.prepareRequest, hw.handled]
      · refine .aborted hzero ?_ rfl hw.handled
        have hresult : r.result = ErrorCode.insufficientBuffer := by
          simpa [Api.asserts, requestCall, World.requestCall] using hasserts
        simp [Report.queued, hresult, ErrorCode.insufficientBuffer, ErrorCode.ioPending]

/-- One answer to a call with a buffer. -/
theorem recieve_answered {ndebug : Bool} {owner : Option RequestId} {w : World} {len : Nat}
    {init : Bool} {r : Report} (hq : Sound L q) (hw : Between w)
    (hlen : L.sizeofHttpRequest ≤ len) (hlt : len < 2 ^ 32)
    (hr : q.admitsHeader L (requestCall L w len init) r = true)
    (hclaims : ∀ e ∈ q, e.asked L (requestCall L w len init) = true → Claims q L owner e)
    (hnone : (∃ e ∈ q, e.asked L (requestCall L w len init) = true ∧ len < e.header.length) →
      owner = none)
    (heof : ∀ e ∈ q, e.id L = (requestCall L w len init).id → e.isDelivered = false) :
    HeaderAnswered L ndebug q owner w.assertsHold r (q.afterHeader L r)
      ((w.recieve L receiving len init).answer L r) := by
  obtain ⟨-, hsuccess, hmore, -, hend⟩ := of_decide_eq_true hr
  rcases ReceiveRequest.answer_recieve hw.pending hlen hlt (hq.admits_receiveRequest hr) with
    ⟨hcode, hwritten, hlength, ht⟩ | ⟨hcode, -⟩ | ⟨hcode, hwritten, hgrows, ht⟩ |
    ⟨hzero, heof', hmore', ht⟩
  · obtain ⟨e, he, hasked, hheader, -⟩ := hsuccess hcode
    rw [ht, Queue.afterHeader, if_pos hcode, hheader]
    refine .delivered r.len (hclaims e he hasked) hcode ?_ ?_ rfl
    · change w.handled ++ _ = _
      rw [hw.handled, List.nil_append]
    · change w.buffer.committed ++ e.header = _
      rw [hw.committed, List.nil_append]
  · obtain ⟨e, he, hid, hdelivered⟩ := hend hcode
    exact absurd hdelivered (by rw [heof e he hid]; decide)
  · obtain ⟨e, he, hasked, hsize, hid, hlonger, hsame⟩ := hmore hcode
    rw [(ReceiveRequest.requestCall_buffer hlen hlt w init).2] at hlonger
    have howner := hnone ⟨e, he, hasked, hlonger⟩
    subst howner
    have hclaim := hclaims e he hasked
    have hbetween : Between (ReceiveRequest.answered L w len init r) :=
      ⟨hw.pending, hw.handled,
        (ReceiveRequest.committed_prepareRequest L w len init).trans hw.committed⟩
    have hzero : r.code ≠ 0 := by
      rw [hcode]
      decide
    rw [ht, Queue.afterHeader, if_neg hzero, if_pos hcode, hid]
    cases hqueued : r.queued with
    | true =>
        have hlonger' : decide (r.len > w.buffer.size) = true := by
          rw [DynamicBuffer.size, hw.committed]
          exact decide_eq_true (by rw [hsame hqueued, List.length_nil]; omega)
        rw [hlonger', World.check_true]
        refine .announced hclaim rfl hcode (.inl ⟨rfl, rfl⟩) ?_
        rw [hsame hqueued]
        exact Asks.again (e := { e with delivery := .announced }) hbetween (mem_update_self he rfl)
          rfl ((ReceiveRequest.id_requestCall hsize (hq.le_length he)).trans hid)
    | false =>
        have hlen' : r.len = 0 := by simp [Report.len, hqueued]
        refine .announced hclaim rfl hcode (.inr ⟨rfl, hqueued⟩) ?_
        rw [hlen']
        unfold World.check
        split
        · exact .blind hbetween
        · split
          · exact .blind ⟨hbetween.pending, hbetween.handled, hbetween.committed⟩
          · exact .aborted hbetween.pending hbetween.handled
  · rw [ht, Queue.afterHeader, if_neg hzero, if_neg hmore']
    refine .failed r.len hzero hmore' ?_
    change w.handled ++ _ = _
    rw [hw.handled, List.nil_append]

/-- One answer to `async_receive`, whatever it waits for. -/
theorem headerAnswered {ndebug : Bool} {owner : Option RequestId} {w : World} {c : Call}
    {h : Handler} {rest : List (Call × Handler)} {r : Report} (hq : Sound L q)
    (hw : Asks L ndebug q owner w) (hpending : w.pending = (c, h) :: rest)
    (hr : q.admits L c r = true) :
    HeaderAnswered L ndebug q owner w.assertsHold r (q.after L c r) (w.answer L r) := by
  cases hw with
  | any =>
      rw [ReceiveRequest.start_eq, pending_recieve rfl] at hpending
      cases hpending
      have hid := id_start L ndebug
      refine recieve_answered (w := { ndebug, buffer := {} }) hq ⟨rfl, rfl, rfl⟩
        (Nat.le_add_right _ _) L.initialSize_lt hr ?_ (fun _ => rfl) ?_
      · exact fun e he hasked => claims_of_asked_nullId hid he hasked
      · exact fun e he h => absurd (h.trans hid) (hq.id_ne_nullId he)
  | @again w e hw he hdelivery hid =>
      rw [pending_recieve hw.pending] at hpending
      cases hpending
      have hne : (requestCall L w e.header.length false).id ≠ nullId := by
        rw [hid]
        exact hq.id_ne_nullId he
      have hsame : ∀ e' ∈ q, e'.id L = (requestCall L w e.header.length false).id → e' = e :=
        fun e' he' h => hq.eq_of_id he' he (h.trans hid)
      refine recieve_answered (w := w) hq hw (hq.le_length he) (hq.length_lt he) hr ?_ ?_ ?_
      · exact fun e' he' hasked => hid ▸ claims_of_asked hne he' hasked
      · rintro ⟨e', he', hasked, hlt⟩
        rw [Entry.asked, if_neg hne] at hasked
        rw [hsame e' he' (of_decide_eq_true hasked).1] at hlt
        exact absurd hlt (Nat.lt_irrefl _)
      · intro e' he' h
        rw [hsame e' he' h, Entry.isDelivered, hdelivery]
  | @blind w hw =>
      rw [pending_recieve hw.pending] at hpending
      cases hpending
      obtain ⟨hzero, hmore, -⟩ := blind_refused hq (id_blind _) hr
      have hafter : q.after L (requestCall L w 0 false) r = q :=
        (if_neg hzero).trans (if_neg hmore)
      rw [hafter]
      exact blind_answered hq hw hr
  | aborted hnil _ =>
      rw [hnil] at hpending
      cases hpending

section Body

open Winasio.ReceiveBody (Receiving BodyReceived)

variable {id : RequestId} {hint : Nat} {old body remaining : Bytes} {w : World}

theorem call_of_receiving {c : Call} {h : Handler} {rest : List (Call × Handler)}
    (hw : Receiving id hint old body (w, remaining)) (hpending : w.pending = (c, h) :: rest) :
    c.api = .receiveRequestEntityBody ∧ c.id = id := by
  rcases hw with @⟨w, remaining, len, hw, -, -⟩ | ⟨hw⟩
  · rw [World.recieveBody, World.pend, show ({ w with buffer := w.buffer.prepare len } :
      World).pending = [] from hw.pending] at hpending
    cases hpending
    exact ⟨rfl, rfl⟩
  · rw [hw.pending] at hpending
    cases hpending

/-- The operation asks on, or it is over: with the whole body or with an error. -/
theorem receiving_cases (hw : Receiving id hint old body (w, remaining)) :
    (w.pending ≠ [] ∧ w.handled = []) ∨
      (∃ len, w.pending = [] ∧ w.handled = [(.success, len)] ∧ w.buffer.committed = old ++ body) ∨
      ∃ c r len, w.pending = [] ∧ w.answered.getLast? = some (c, r) ∧
        w.handled = [(⟨r.code⟩, len)] ∧ r.code ≠ 0 ∧ r.code ≠ ErrorCode.handleEof := by
  rcases hw with @⟨w, remaining, len, hw, -, -⟩ | ⟨hw⟩
  · exact .inl ⟨List.append_ne_nil_of_right_ne_nil w.pending (List.cons_ne_nil _ _), hw.handled⟩
  · obtain ⟨earlier, c, r, hanswered, -, ⟨-, hhandled, hcommitted⟩ | ⟨hzero, heof, hhandled, -⟩⟩ :=
      hw.outcome
    · exact .inr (.inl ⟨_, hw.pending, hhandled, hcommitted⟩)
    · have hlast : w.answered.getLast? = some (c, r) := by
        rw [hanswered, List.getLast?_concat]
      exact .inr (.inr ⟨c, r, _, hw.pending, hlast, hhandled, hzero, heof⟩)

/-- What an answer does not change, and what it adds. -/
theorem answer_frame {c : Call} {h : Handler} {rest : List (Call × Handler)} {r : Report}
    (hw : Receiving id hint old body (w, remaining)) (hpending : w.pending = (c, h) :: rest) :
    (w.answer L r).answered.getLast? = some (c, r) ∧
      (w.answer L r).assertsHold = w.assertsHold := by
  rcases hw with @⟨w, remaining, len, hw, -, -⟩ | ⟨hw⟩
  · have hcall : c = ReceiveBody.bodyCall w id len := by
      rw [World.recieveBody, World.pend, show ({ w with buffer := w.buffer.prepare len } :
        World).pending = [] from hw.pending] at hpending
      cases hpending
      rfl
    have hanswered : (ReceiveBody.answered w id len r).answered.getLast? = some (c, r) := by
      rw [hcall]
      exact List.getLast?_concat
    rw [ReceiveBody.answer_recieveBody hw.pending]
    simp only [Handler.invoke]
    split
    · split
      · exact ⟨hanswered, rfl⟩
      · exact ⟨hanswered, rfl⟩
    · exact ⟨hanswered, rfl⟩
  · rw [hw.pending] at hpending
    cases hpending

/-- One answer to `async_receive_body` takes what it delivers out of the queue. -/
theorem bodyAnswered {e : Entry} {c : Call} {h : Handler} {rest : List (Call × Handler)}
    {r : Report} (hhint : 1 ≤ hint) (hlt : hint < 2 ^ 32) (hq : Sound L q) (he : e ∈ q)
    (hdelivery : e.delivery = .delivered remaining)
    (hw : Receiving (e.id L) hint old body (w, remaining)) (hpending : w.pending = (c, h) :: rest)
    (hr : q.admits L c r = true) :
    q.after L c r =
        q.update L (e.id L) (fun _ => .delivered (ReceiveBody.after remaining r)) ∧
      Receiving (e.id L) hint old body (w.answer L r, ReceiveBody.after remaining r) ∧
      ReceiveBody.workload (w.answer L r, ReceiveBody.after remaining r) <
        ReceiveBody.workload (w, remaining) := by
  obtain ⟨hapi, hid⟩ := call_of_receiving hw hpending
  have hrest : q.rest L c.id = some remaining := hid ▸ hq.rest_eq he hdelivery
  have hadmits : ReceiveBody.admits remaining c r = true := by
    simpa only [Queue.admits, hapi, Queue.admitsBody, hrest] using hr
  have hstep : (ReceiveBody.system L).step (w, remaining) r =
      some (w.answer L r, ReceiveBody.after remaining r) := by
    simp only [ReceiveBody.system, hpending, hadmits, if_true]
  refine ⟨?_, ReceiveBody.receiving_step hhint hlt hw hstep⟩
  simp only [Queue.after, hapi, Queue.afterBody, hrest]
  rw [hid]

end Body

end Winasio.QueuedReceive
