import Winasio.ResponseBody

/-!
A client that reads a response with one `async_read_some` after the other, and
its agreement with `async_read_body`.
-/

namespace Winasio.ResponseStream

open Winasio.Transition
open Winasio.RequestContext
open Winasio.Operation
open Winasio.ReadBody
open Winasio.ResponseBody

/-- One call of `async_read_some`: the size of the buffer it got, what its
handler was invoked with, and what is in the buffer then. -/
structure Received where
  size : Nat
  ec : ErrorCode
  len : Nat
  stored : Bytes
  deriving DecidableEq, Repr

structure Reader where
  world : World
  response : Response
  received : List Received := []

namespace Reader

def delivered (r : Reader) : Bytes := r.received.flatMap Received.stored

def call (sizes : Nat → Nat) (r : Reader) : Reader :=
  { r with world := { r.world with raw := [] }.asyncReadSome (sizes r.received.length) .token }

/-- If the handler of the current call was invoked, look at what it got: the
loop stops at an error and at a call that delivers nothing. -/
def resume (sizes : Nat → Nat) (r : Reader) : Reader :=
  match r.world.handled[r.received.length]? with
  | none => r
  | some (ec, len) =>
      let received := r.received ++ [⟨sizes r.received.length, ec, len, r.world.raw⟩]
      if ec.failed || len == 0 then { r with received }
      else { r with received }.call sizes

def step (sizes : Nat → Nat) (r : Reader) (o : Outcome) : Option Reader :=
  (r.response.respond r.world o).map fun s =>
    { r with world := s.1, response := s.2 }.resume sizes

def system (sizes : Nat → Nat) : System Reader Outcome := ⟨step sizes⟩

def start (sizes : Nat → Nat) (w : World) (response : Response) : Reader :=
  { world := w, response : Reader }.call sizes

end Reader

/-- A call reports as many bytes as it stored, and those fit its buffer. -/
def Received.Exact (x : Received) : Prop := x.len = x.stored.length ∧ x.len ≤ x.size

def Received.More (x : Received) : Prop := x.ec.failed = false ∧ x.len ≠ 0

/-- The client between two calls: what it has received is missing from the
response. -/
structure Between (sizes : Nat → Nat) (response : Response) (w : World) (r : Response)
    (received : List Received) : Prop where
  pending : w.pending = []
  handled : w.handled = received.map fun x => (x.ec, x.len)
  delivered : received.flatMap Received.stored ++ r.remaining = response.remaining
  ending : r.ending = response.ending
  exact : ∀ x ∈ received, x.Exact
  more : ∀ x ∈ received, x.More
  raw : w.raw = []
  assertsHold : w.assertsHold = true

/-- The client has stopped: it received the response up to its end, and its
last call, the only one that delivered nothing, told it how the response
ends. -/
structure StreamRead (response : Response) (r : Reader) : Prop where
  pending : r.world.pending = []
  delivered : r.delivered = response.remaining
  last : ∃ earlier size, r.received = earlier ++ [⟨size, response.result, 0, []⟩] ∧
    ∀ x ∈ earlier, x.More
  exact : ∀ x ∈ r.received, x.Exact
  handled : r.world.handled = r.received.map fun x => (x.ec, x.len)
  assertsHold : r.world.assertsHold = true

inductive Receiving (sizes : Nat → Nat) (response : Response) : Reader → Prop
  | query {w : World} {r : Response} {received : List Received} :
      Between sizes response w r received → Receiving sizes response
        ⟨w.asyncReadSome (sizes received.length) .token, r, received⟩
  | read {w : World} {r : Response} {received : List Received} (n : UInt32) :
      Between sizes response w r received → (n = 0 → r.Ended) →
      n.toNat ≤ sizes received.length → Receiving sizes response
        ⟨w.start (.readData .rawBuffer n)
          (.asyncReadSomeOp (sizes received.length) .readData .token), r, received⟩
  | done {r : Reader} : StreamRead response r → Receiving sizes response r

theorem invoke_asyncReadSomeOp_of_failed {ec : ErrorCode} (hec : ec.failed = true) (size : Nat)
    (state : ReadSomeState) (self : Handler) (len : Nat) (w : World) :
    (Handler.asyncReadSomeOp size state self).invoke ec len w = self.invoke ec len w := by
  cases state <;> simp [Handler.invoke, hec]

theorem answer_start_asyncReadSomeOp_of_fails {w : World} (hw : w.pending = []) (c : StepCall)
    (size : Nat) (state : ReadSomeState) (self : Handler) {o : Outcome} {e : Failure}
    (ho : o.Fails e) :
    (w.start c (.asyncReadSomeOp size state self)).answer o =
      self.invoke e.val 0 (w.answered c o) := by
  rw [World.answer_start hw, ho.result, invoke_asyncReadSomeOp_of_failed e.failed]

theorem answer_query_readSome {w : World} (hw : w.pending = []) (size : Nat) (self : Handler)
    (n : UInt32) (data : Bytes) :
    (w.asyncReadSome size self).answer (.completed n data) =
      (w.answered .queryDataAvailable (.completed n data)).start
        (.readData .rawBuffer (.ofNat (min n.toNat size)))
        (.asyncReadSomeOp size .readData self) := by
  rw [World.asyncReadSome, World.asyncQueryDataAvailable, World.answer_start hw]
  simp [Handler.invoke, Outcome.result, StepCall.completion, Notification.result,
    World.asyncReadData]

theorem answer_read_readSome {w : World} (hw : w.pending = []) (size : Nat) (self : Handler)
    (n len : UInt32) (data : Bytes) :
    (w.start (.readData .rawBuffer n) (.asyncReadSomeOp size .readData self)).answer
        (.completed len data) =
      self.invoke .success (data.take n.toNat).length
        (w.answered (.readData .rawBuffer n) (.completed len data)) := by
  rw [World.answer_start hw, result_readData]
  rfl

theorem toNat_ofNat_min (n : UInt32) (size : Nat) :
    (UInt32.ofNat (min n.toNat size)).toNat = min n.toNat size := by
  have := n.toNat_lt
  simp only [UInt32.toNat_ofNat']
  omega

theorem Between.length_handled {sizes : Nat → Nat} {response r : Response} {w : World}
    {received : List Received} (h : Between sizes response w r received) :
    w.handled.length = received.length := by
  rw [h.handled, List.length_map]

theorem resume_start {sizes : Nat → Nat} {w : World} {received : List Received}
    (hw : w.handled.length = received.length) (c : StepCall) (h : Handler) (r : Response) :
    Reader.resume sizes ⟨w.start c h, r, received⟩ = ⟨w.start c h, r, received⟩ := by
  have : (w.start c h).handled[received.length]? = none :=
    List.getElem?_eq_none (by change w.handled.length ≤ _; omega)
  simp only [Reader.resume, this]

theorem resume_token {sizes : Nat → Nat} {w : World} {received : List Received}
    (hw : w.handled.length = received.length) (ec : ErrorCode) (len : Nat) (r : Response) :
    Reader.resume sizes ⟨Handler.token.invoke ec len w, r, received⟩ =
      let r' : Reader := ⟨Handler.token.invoke ec len w, r,
        received ++ [⟨sizes received.length, ec, len, w.raw⟩]⟩
      if ec.failed || len == 0 then r' else r'.call sizes := by
  have : (Handler.token.invoke ec len w).handled[received.length]? = some (ec, len) := by
    rw [← hw]
    exact List.getElem?_concat_length
  simp only [Reader.resume, this]
  rfl

theorem Between.streamRead {sizes : Nat → Nat} {response r : Response} {w : World}
    {received : List Received} {ec : ErrorCode} (h : Between sizes response w r received)
    (hremaining : r.remaining = []) (hec : r.result = ec) :
    StreamRead response ⟨Handler.token.invoke ec 0 w, r,
      received ++ [⟨sizes received.length, ec, 0, w.raw⟩]⟩ where
  pending := h.pending
  delivered := by
    have := h.delivered
    rw [hremaining, List.append_nil] at this
    simpa [Reader.delivered, h.raw] using this
  last := by
    refine ⟨received, sizes received.length, ?_, h.more⟩
    rw [h.raw, ← hec, Response.result, Response.result, h.ending]
  exact := by
    intro x hx
    rcases List.mem_append.mp hx with hx | hx
    · exact h.exact x hx
    · rw [List.mem_singleton.mp hx]
      exact ⟨by rw [h.raw]; rfl, Nat.zero_le _⟩
  handled := by
    change w.handled ++ [(ec, 0)] = _
    rw [h.handled, List.map_append]
    rfl
  assertsHold := h.assertsHold

theorem Between.next {sizes : Nat → Nat} {response r : Response} {w : World}
    {received : List Received} {data rest : Bytes} {size : Nat}
    (h : Between sizes response { w with raw := [] } r received) (hraw : w.raw = data)
    (hdata : data ≠ []) (hrest : data ++ rest = r.remaining) (hsize : data.length ≤ size) :
    Between sizes response { Handler.token.invoke .success data.length w with raw := [] }
      { r with remaining := rest } (received ++ [⟨size, .success, data.length, w.raw⟩]) where
  pending := h.pending
  handled := by
    change w.handled ++ [(ErrorCode.success, data.length)] = _
    have : w.handled = _ := h.handled
    rw [this, List.map_append]
    rfl
  delivered := by
    rw [List.flatMap_append, List.append_assoc]
    have : [(⟨size, .success, data.length, w.raw⟩ : Received)].flatMap Received.stored =
        data := by
      simp [hraw]
    rw [this, hrest]
    exact h.delivered
  ending := h.ending
  exact := by
    intro x hx
    rcases List.mem_append.mp hx with hx | hx
    · exact h.exact x hx
    · rw [List.mem_singleton.mp hx]
      exact ⟨by rw [hraw], hsize⟩
  more := by
    intro x hx
    rcases List.mem_append.mp hx with hx | hx
    · exact h.more x hx
    · rw [List.mem_singleton.mp hx]
      exact ⟨rfl, by simpa using hdata⟩
  raw := rfl
  assertsHold := h.assertsHold

theorem Between.stops {sizes : Nat → Nat} {response r : Response} {w : World}
    {received : List Received} {ec : ErrorCode} (h : Between sizes response w r received)
    (hremaining : r.remaining = []) (hec : r.result = ec) :
    let r' := Reader.resume sizes ⟨Handler.token.invoke ec 0 w, r, received⟩
    Receiving sizes response r' ∧ workload r'.world r'.response = 0 := by
  intro r'
  have hr' : r' = ⟨Handler.token.invoke ec 0 w, r,
      received ++ [⟨sizes received.length, ec, 0, w.raw⟩]⟩ := by
    simp only [r', resume_token h.length_handled, beq_self_eq_true, Bool.or_true, if_true]
  have hdone := h.streamRead hremaining hec
  rw [hr']
  refine ⟨.done hdone, ?_⟩
  rw [workload_of_pending_nil hdone.pending, hremaining, List.length_nil]

theorem Between.continues {sizes : Nat → Nat} {response r : Response} {w : World}
    {received : List Received} {data rest : Bytes}
    (h : Between sizes response { w with raw := [] } r received) (hraw : w.raw = data)
    (hdata : data ≠ []) (hrest : data ++ rest = r.remaining)
    (hsize : data.length ≤ sizes received.length) :
    let r' := Reader.resume sizes
      ⟨Handler.token.invoke .success data.length w, { r with remaining := rest }, received⟩
    Receiving sizes response r' ∧
      workload r'.world r'.response = 2 * rest.length + 2 := by
  intro r'
  have hnext := h.next hraw hdata hrest hsize
  have hlen : data.length ≠ 0 := by simpa using hdata
  have hlength : w.handled.length = received.length := h.length_handled
  have hr' : r' = Reader.call sizes ⟨Handler.token.invoke .success data.length w,
      { r with remaining := rest },
      received ++ [⟨sizes received.length, .success, data.length, w.raw⟩]⟩ := by
    simp only [r', resume_token hlength, ErrorCode.failed_success, Bool.false_or,
      beq_iff_eq, hlen, if_false]
  rw [hr']
  exact ⟨.query hnext, workload_query hnext.pending _ _⟩

theorem receiving_query {sizes : Nat → Nat} (hsizes : ∀ i, 1 ≤ sizes i)
    {response r : Response} {w : World} {received : List Received} {o : Outcome}
    (h : Between sizes response w r received) (ho : r.admits .queryDataAvailable o = true) :
    let r' := Reader.resume sizes ⟨(w.asyncReadSome (sizes received.length) .token).answer o,
      r.after .queryDataAvailable o, received⟩
    Receiving sizes response r' ∧
      workload r'.world r'.response < 2 * r.remaining.length + 2 := by
  intro r'
  rcases Response.admits_query ho with ⟨e, hfails, hremaining, hending⟩ | ⟨n, data, rfl, hn⟩
  · have hanswered : Between sizes response (w.answered .queryDataAvailable o) r received := by
      rcases hfails with rfl | rfl <;>
        exact ⟨h.pending, h.handled, h.delivered, h.ending, h.exact, h.more, h.raw,
          h.assertsHold⟩
    have hr' : r' = Reader.resume sizes
        ⟨Handler.token.invoke e.val 0 (w.answered .queryDataAvailable o), r, received⟩ := by
      simp only [r', World.asyncReadSome, World.asyncQueryDataAvailable,
        Response.after_of_fails hfails,
        answer_start_asyncReadSomeOp_of_fails h.pending _ _ _ _ hfails]
    rw [hr']
    obtain ⟨hreceiving, hwork⟩ := hanswered.stops hremaining (Response.result_of_ending hending)
    exact ⟨hreceiving, by omega⟩
  · have hanswered : Between sizes response
        (w.answered .queryDataAvailable (.completed n data)) r received :=
      ⟨h.pending, h.handled, h.delivered, h.ending, h.exact, h.more, h.raw, h.assertsHold⟩
    have hcapped := toNat_ofNat_min n (sizes received.length)
    have hr' : r' = ⟨(w.answered .queryDataAvailable (.completed n data)).start
        (.readData .rawBuffer (.ofNat (min n.toNat (sizes received.length))))
        (.asyncReadSomeOp (sizes received.length) .readData .token), r, received⟩ := by
      simp only [r', answer_query_readSome h.pending,
        resume_start hanswered.length_handled]
      rfl
    rw [hr']
    refine ⟨.read _ hanswered (fun hzero => hn ?_) (by omega),
      (workload_read hanswered.pending _ _ _ r).trans_lt (by omega)⟩
    · have hsize := hsizes received.length
      rw [hzero, UInt32.toNat_zero] at hcapped
      apply UInt32.toNat_inj.mp
      rw [UInt32.toNat_zero]
      omega

theorem receiving_read {sizes : Nat → Nat} {response r : Response} {w : World}
    {received : List Received} {n : UInt32} {o : Outcome}
    (h : Between sizes response w r received) (hn : n = 0 → r.Ended)
    (hsize : n.toNat ≤ sizes received.length)
    (ho : r.admits (.readData .rawBuffer n) o = true) :
    let r' := Reader.resume sizes ⟨(w.start (.readData .rawBuffer n)
        (.asyncReadSomeOp (sizes received.length) .readData .token)).answer o,
      r.after (.readData .rawBuffer n) o, received⟩
    Receiving sizes response r' ∧
      workload r'.world r'.response < 2 * r.remaining.length + 1 := by
  intro r'
  rcases Response.admits_read ho with
    ⟨e, hfails, hremaining, hending⟩ | ⟨len, data, rfl, hdata, hend⟩
  · have hanswered : Between sizes response (w.answered (.readData .rawBuffer n) o) r
        received := by
      rcases hfails with rfl | rfl <;>
        exact ⟨h.pending, h.handled, h.delivered, h.ending, h.exact, h.more, h.raw,
          h.assertsHold⟩
    have hr' : r' = Reader.resume sizes
        ⟨Handler.token.invoke e.val 0 (w.answered (.readData .rawBuffer n) o), r, received⟩ := by
      simp only [r', Response.after_of_fails hfails,
        answer_start_asyncReadSomeOp_of_fails h.pending _ _ _ _ hfails]
    rw [hr']
    obtain ⟨hreceiving, hwork⟩ := hanswered.stops hremaining (Response.result_of_ending hending)
    exact ⟨hreceiving, by omega⟩
  have hraw : (w.answered (.readData .rawBuffer n) (.completed len data)).raw =
      data.take n.toNat := rfl
  obtain ⟨rest, hrest⟩ := hdata
  have hr' : r' = Reader.resume sizes
      ⟨Handler.token.invoke .success (data.take n.toNat).length
        (w.answered (.readData .rawBuffer n) (.completed len data)),
        { r with remaining := rest }, received⟩ := by
    simp only [r', Response.after_read .rawBuffer len hrest, answer_read_readSome h.pending]
  rw [hr']
  by_cases hnil : data.take n.toNat = []
  · have hended : r.Ended := Response.ended_of_take_nil hn hend hnil
    have hr : { r with remaining := rest } = r := by
      rw [hnil, List.nil_append] at hrest
      rw [hrest]
    have hanswered : Between sizes response
        (w.answered (.readData .rawBuffer n) (.completed len data)) r received :=
      ⟨h.pending, h.handled, h.delivered, h.ending, h.exact, h.more, hraw.trans hnil,
        h.assertsHold⟩
    obtain ⟨hreceiving, hwork⟩ := hanswered.stops hended.1 hended.result
    rw [hr, hnil]
    exact ⟨hreceiving, Nat.lt_of_le_of_lt (Nat.le_of_eq hwork) (Nat.succ_pos _)⟩
  · have hanswered : Between sizes response
        { w.answered (.readData .rawBuffer n) (.completed len data) with raw := [] } r
        received :=
      ⟨h.pending, h.handled, h.delivered, h.ending, h.exact, h.more, rfl, h.assertsHold⟩
    have hfits : (data.take n.toNat).length ≤ sizes received.length := by
      rw [List.length_take]
      omega
    obtain ⟨hreceiving, hwork⟩ := hanswered.continues hraw hnil hrest hfits
    have hlength : (data.take n.toNat).length + rest.length = r.remaining.length := by
      rw [← hrest, List.length_append]
    have hpos := List.length_pos_iff.mpr hnil
    refine ⟨hreceiving, ?_⟩
    rw [hwork]
    omega

theorem receiving_step {sizes : Nat → Nat} (hsizes : ∀ i, 1 ≤ sizes i) {response : Response}
    {s s' : Reader} {o : Outcome} (hs : Receiving sizes response s)
    (hstep : (Reader.system sizes).step s o = some s') :
    Receiving sizes response s' ∧
      workload s'.world s'.response < workload s.world s.response := by
  obtain ⟨t, ht, rfl⟩ := Option.map_eq_some_iff.mp hstep
  rcases hs with @⟨w, r, received, h⟩ | @⟨w, r, received, n, h, hn, hsize⟩ | ⟨h⟩
  · obtain ⟨ho, rfl⟩ := (Response.respond_start_eq_some h.pending).mp ht
    have hwork : workload (w.asyncReadSome (sizes received.length) .token) r = _ :=
      workload_query h.pending _ r
    rw [hwork]
    exact receiving_query hsizes h ho
  · obtain ⟨ho, rfl⟩ := (Response.respond_start_eq_some h.pending).mp ht
    rw [workload_read h.pending]
    exact receiving_read h hn hsize ho
  · rw [Response.respond_of_pending_nil h.pending] at ht
    cases ht

theorem receiving_progress {sizes : Nat → Nat} {response : Response} {s : Reader}
    (hs : Receiving sizes response s) (hdone : ¬ StreamRead response s) :
    ∃ o s', (Reader.system sizes).step s o = some s' := by
  rcases hs with ⟨h⟩ | ⟨n, h, -, -⟩ | ⟨h⟩
  · obtain ⟨o, ho⟩ := Response.exists_admits_query _
    exact ⟨o, _, Option.map_eq_some_iff.mpr
      ⟨_, (Response.respond_start_eq_some h.pending).mpr ⟨ho, rfl⟩, rfl⟩⟩
  · obtain ⟨o, ho⟩ := Response.exists_admits_read _ .rawBuffer n
    exact ⟨o, _, Option.map_eq_some_iff.mpr
      ⟨_, (Response.respond_start_eq_some h.pending).mpr ⟨ho, rfl⟩, rfl⟩⟩
  · exact absurd h hdone

theorem receiving_start (sizes : Nat → Nat) (response : Response) {w : World}
    (hw : w.pending = []) (hhandled : w.handled = []) (hasserts : w.assertsHold = true) :
    Receiving sizes response (Reader.start sizes w response) :=
  .query ⟨hw, hhandled, rfl, rfl, by simp, by simp, rfl, hasserts⟩

theorem Receiving.exact {sizes : Nat → Nat} {response : Response} {s : Reader}
    (hs : Receiving sizes response s) : ∀ x ∈ s.received, x.Exact := by
  rcases hs with ⟨h⟩ | ⟨n, h, -, -⟩ | ⟨h⟩
  · exact h.exact
  · exact h.exact
  · exact h.exact

/-- Within two WinHTTP calls for every byte, and two at the end, the client has
received the response. -/
theorem within_streamRead {sizes : Nat → Nat} (hsizes : ∀ i, 1 ≤ sizes i) {response : Response}
    {s : Reader} (hs : Receiving sizes response s) :
    (Reader.system sizes).Within (StreamRead response) (workload s.world s.response) s :=
  System.within_of_measure (I := Receiving sizes response) (fun s => workload s.world s.response)
    (fun _ => receiving_progress) (fun _ _ _ hs _ hstep => receiving_step hsizes hs hstep) hs

theorem readerSystem_of_pending_nil {sizes : Nat → Nat} {s : Reader}
    (hs : s.world.pending = []) (o : Outcome) : (Reader.system sizes).step s o = none := by
  change (s.response.respond s.world o).map _ = none
  rw [Response.respond_of_pending_nil hs]
  rfl

/-- However WinHTTP cuts a response into announcements and reads, and whatever
buffers the client uses: `async_read_body` commits the response and reports
how it ends, the calls of `async_read_some` deliver the same bytes and end
with the same result, and every one of them reports what it stored. -/
theorem asyncReadSome_agrees (response : Response) (initial : Bytes) (sizes : Nat → Nat)
    (hsizes : ∀ i, 1 ≤ sizes i) (handle : Option Nat) (ctx : AsioRequestContext) :
    let w : World := { handle, ctx, buffer := .ofVector initial }
    let bound := 2 * response.remaining.length + 2
    readBodySystem.Within (fun s => BodyRead initial response s.1) bound
        (w.asyncReadBody .token, response) ∧
      (Reader.system sizes).Within (StreamRead response) bound
        (Reader.start sizes w response) ∧
      (∀ script s, (Reader.system sizes).run (Reader.start sizes w response) script = some s →
        ∀ x ∈ s.received, x.Exact) ∧
      ∀ script t script' s,
        readBodySystem.run (w.asyncReadBody .token, response) script = some t →
        (Reader.system sizes).run (Reader.start sizes w response) script' = some s →
        t.1.pending = [] → s.world.pending = [] →
        t.1.buffer.committed = initial ++ s.delivered ∧
          t.1.handled.map Prod.fst = (s.received.getLast?.map Received.ec).toList := by
  intro w bound
  have hbody : Reading initial response (w.asyncReadBody .token, response) :=
    .query ⟨rfl, rfl, rfl, rfl, rfl⟩
  have hstream := receiving_start sizes response (w := w) rfl rfl rfl
  have hbodyEnds := within_bodyRead hbody
  have hstreamEnds := within_streamRead hsizes hstream
  refine ⟨hbodyEnds, hstreamEnds, ?_, ?_⟩
  · intro script s hrun
    exact (System.run_preserves (fun _ _ _ hs hstep => (receiving_step hsizes hs hstep).1)
      hstream hrun).exact
  · intro script t script' s ht hs htpending hspending
    have hbodyRead : BodyRead initial response t.1 := by
      rcases (hbodyEnds.of_run (fun _ h => readBodySystem_of_pending_nil h.pending) ht).2 with
        h | ⟨o, t', ho⟩
      · exact h
      · rw [readBodySystem_of_pending_nil htpending] at ho
        cases ho
    have hstreamRead : StreamRead response s := by
      rcases (hstreamEnds.of_run (fun _ h => readerSystem_of_pending_nil h.pending) hs).2 with
        h | ⟨o, s', ho⟩
      · exact h
      · rw [readerSystem_of_pending_nil hspending] at ho
        cases ho
    obtain ⟨earlier, size, hreceived, -⟩ := hstreamRead.last
    refine ⟨?_, ?_⟩
    · rw [hbodyRead.committed, hstreamRead.delivered]
    · rw [hbodyRead.handled, hreceived, List.getLast?_concat]
      rfl

/-- Three bytes, read with growing buffers behind a byte that was there. -/
theorem asyncReadSome_agrees_threeBytes :
    let w : World := { buffer := .ofVector [9] }
    (Reader.system (· + 1)).Within (StreamRead ⟨[65, 66, 67], none⟩) 8
      (Reader.start (· + 1) w ⟨[65, 66, 67], none⟩) :=
  (asyncReadSome_agrees ⟨[65, 66, 67], none⟩ [9] (· + 1) (fun _ => Nat.le_add_left 1 _) none
    {}).2.1

end Winasio.ResponseStream
