import Winasio.ReadBody

/-!
`async_exec`: a whole request from a payload, against the sequential client it
stands for.
-/

namespace Winasio.Client

open Winasio.ClientPayload
open Winasio.RequestContext
open Winasio.Operation
open Winasio.ReadBody

def sendArgs (p : Payload) : SendArgs where
  headers := p.headersArg
  headersLength := p.headersLength
  optional := p.optionalArg
  optionalLength := p.optionalLength
  totalLength := p.optionalLength

def openArgs (p : Payload) (connect : Nat) : OpenArgs where
  connect
  verb := p.method
  objectName := p.path
  acceptTypes := p.accept.bind fun a => a.get.2
  flags := p.flags

def afterGet (p : Payload) : Payload := { p with accept := p.accept.map fun a => a.get.1 }

def asyncExecOp (w : World) (p : Payload) : World :=
  (Handler.asyncExecOp (sendArgs p) .idle .token).invoke .success 0 w

/-- The part of `async_exec` behind `managed_open`. -/
def secureAndExec (p : Payload) (sync : SyncOutcomes) (w : World) (ec : ErrorCode) : World :=
  if p.skipsVerify then
    let (w, ec) := w.setOption optionSecurityFlags Payload.securityFlags sync.setOption ec
    if ec.failed then w.post ec else asyncExecOp w p
  else asyncExecOp w p

/-- `async_exec` up to its return, with the payload it leaves. -/
def asyncExec (p : Payload) (connect : Nat) (sync : SyncOutcomes) (w : World) :
    Payload × World :=
  let (w, ec) := w.managedOpen (openArgs p connect) sync .success
  (afterGet p, if ec.failed then w.post ec else secureAndExec p sync w ec)

/-- The first call of the sequential client behind the option: the headers and
the body of the payload, the null pointer where there are none, and their
lengths as far as they fit. -/
def send (p : Payload) : Call :=
  let length : UInt32 := (p.body.map fun body => .ofNat body.length).getD 0
  .step <| .sendRequest
    { headers := p.header.bind fun header =>
        if header.data.isEmpty then none else some header.data
      headersLength := (p.header.map fun header => .ofNat header.data.length).getD 0
      optional := p.body
      optionalLength := length
      totalLength := length }

def receive : Call := .step .receiveResponse

def sendReceive (p : Payload) : List Outcome → SeqRun
  | [] => { calls := [send p], result := none }
  | .failed e :: _ | .requestError e :: _ => { calls := [send p], result := some e.val }
  | [.completed _ _] => { calls := [send p, receive], result := none }
  | .completed _ _ :: .failed e :: _ | .completed _ _ :: .requestError e :: _ =>
      { calls := [send p, receive], result := some e.val }
  | .completed _ _ :: .completed _ _ :: script => (readLoop script).after [send p, receive] []

def secureAndSend (p : Payload) (sync : SyncOutcomes) (script : List Outcome) : SeqRun :=
  if p.secure && p.insecureSkipVerify then
    let setOption : Call := .setOption optionSecurityFlags
      (ignoreCertCnInvalid ||| ignoreCertDateInvalid ||| ignoreUnknownCa ||| ignoreCertWrongUsage)
    match sync.setOption with
    | some e => { calls := [setOption], result := some e.val }
    | none => (sendReceive p script).after [setOption] []
  else sendReceive p script

/-- The sequential client: open the request and register the callback, secure
it, send, receive and read the body, up to the first failure. -/
def reference (p : Payload) (connect : Nat) (handle : Option Nat) (sync : SyncOutcomes)
    (script : List Outcome) : SeqRun :=
  let openCall : Call := .openRequest connect p.method p.path (p.accept.bind fun a => a.get.2)
    (if p.secure then flagSecure else 0)
  match sync.openRequest with
  | .error e => { calls := [openCall], result := some e.val }
  | .ok _ =>
      match sync.setStatusCallback with
      | some e =>
          { calls := openCall :: closeCalls handle ++ [.setStatusCallback]
            result := some e.val }
      | none =>
          (secureAndSend p sync script).after
            (openCall :: closeCalls handle ++ [.setStatusCallback]) []

theorem invoke_asyncExecOp_of_failed {ec : ErrorCode} (hec : ec.failed = true) (args : SendArgs)
    (state : ExecState) (self : Handler) (len : Nat) (w : World) :
    (Handler.asyncExecOp args state self).invoke ec len w = self.invoke ec len w := by
  cases state <;> simp [Handler.invoke, hec]

theorem invoke_asyncExecOp_done (args : SendArgs) (self : Handler) (ec : ErrorCode) (w : World) :
    (Handler.asyncExecOp args .done self).invoke ec 0 w = self.invoke ec 0 w := by
  cases h : ec.failed <;> simp [Handler.invoke, h]

theorem ends_asyncExecOp_done (args : SendArgs) : Ends (.asyncExecOp args .done .token) := by
  intro ec len w hw
  cases h : ec.failed <;> simp [Handler.invoke, h, hw]

theorem answer_start_asyncExecOp_of_fails {w : World} (hw : w.pending = []) (c : StepCall)
    (args : SendArgs) (state : ExecState) {o : Outcome} {e : Failure} (ho : o.Fails e) :
    (w.start c (.asyncExecOp args state .token)).answer o =
      Handler.token.invoke e.val 0 (w.answered c o) := by
  rw [World.answer_start hw, ho.result, invoke_asyncExecOp_of_failed e.failed]

theorem answer_send {w : World} (hw : w.pending = []) (args : SendArgs) (len : UInt32)
    (data : Bytes) :
    (w.asyncSend args (.asyncExecOp args .send .token)).answer (.completed len data) =
      (w.answered (.sendRequest args) (.completed len data)).start .receiveResponse
        (.asyncExecOp args .receiveResponse .token) := by
  rw [World.asyncSend, World.answer_start hw]
  rfl

theorem answer_receive {w : World} (hw : w.pending = []) (args : SendArgs) (len : UInt32)
    (data : Bytes) :
    (w.start .receiveResponse (.asyncExecOp args .receiveResponse .token)).answer
        (.completed len data) =
      (w.answered .receiveResponse (.completed len data)).asyncReadBody
        (.asyncExecOp args .done .token) := by
  rw [World.answer_start hw]
  rfl

theorem follows_answered_send (w : World) (args : SendArgs) (len : UInt32) (data : Bytes)
    (ec : Option ErrorCode) :
    Follows w (w.answered (.sendRequest args) (.completed len data))
      ⟨[.step (.sendRequest args)], ec, []⟩ :=
  follows_of_calls rfl rfl rfl rfl rfl

theorem follows_answered_receive (w : World) (len : UInt32) (data : Bytes)
    (ec : Option ErrorCode) :
    Follows w (w.answered .receiveResponse (.completed len data)) ⟨[receive], ec, []⟩ :=
  follows_of_calls rfl rfl rfl rfl rfl

theorem stands_of_asyncExecOp_done {w t : World} {args : SendArgs} {r : SeqRun}
    (h : Stands w (.asyncExecOp args .done .token) r t) : Stands w .token r t := by
  rcases r with ⟨calls, _ | ec, bytes⟩
  · exact h
  · obtain ⟨w', hw', hpending, ht, hspare⟩ := h
    exact ⟨w', hw', hpending, ht.trans (invoke_asyncExecOp_done args .token ec w'), hspare⟩

theorem run_asyncExecOp (p : Payload) {w : World} (hw : w.pending = []) (script : List Outcome) :
    Stands w .token (sendReceive p script) ((asyncExecOp w p).run script) := by
  have hstart : asyncExecOp w p =
      w.asyncSend (sendArgs p) (.asyncExecOp (sendArgs p) .send .token) := rfl
  rw [hstart]
  rcases script with _ | ⟨o, script⟩
  · have h := follows_start w (.sendRequest (sendArgs p))
      (.asyncExecOp (sendArgs p) .send .token)
    exact stands_waiting h hw
  rw [World.run_cons]
  rcases o with e | e | ⟨len, data⟩
  · rw [World.asyncSend, answer_start_asyncExecOp_of_fails hw _ _ _ (.inl rfl)]
    exact stands_failed ends_token (follows_answered_of_fails w _ (.inl rfl) _) hw script
  · rw [World.asyncSend, answer_start_asyncExecOp_of_fails hw _ _ _ (.inr rfl)]
    exact stands_failed ends_token (follows_answered_of_fails w _ (.inr rfl) _) hw script
  rw [answer_send hw]
  have hsent := follows_answered_send w (sendArgs p) len data none
  have hsentPending :
      (w.answered (.sendRequest (sendArgs p)) (.completed len data)).pending = [] := hw
  rcases script with _ | ⟨o', script⟩
  · exact stands_waiting (hsent.after (follows_start _ .receiveResponse _)) hsentPending
  rw [World.run_cons]
  rcases o' with e | e | ⟨len', data'⟩
  · rw [answer_start_asyncExecOp_of_fails hsentPending _ _ _ (.inl rfl)]
    exact stands_failed ends_token
      (hsent.after (follows_answered_of_fails _ _ (.inl rfl) _)) hw script
  · rw [answer_start_asyncExecOp_of_fails hsentPending _ _ _ (.inr rfl)]
    exact stands_failed ends_token
      (hsent.after (follows_answered_of_fails _ _ (.inr rfl) _)) hw script
  rw [answer_receive hsentPending, sendReceive]
  have hreceived := hsent.after (follows_answered_receive _ len' data' none)
  have hreceivedPending : ((w.answered (.sendRequest (sendArgs p)) (.completed len data)).answered
      .receiveResponse (.completed len' data')).pending = [] := hw
  have hbody := run_asyncReadBody (ends_asyncExecOp_done (sendArgs p)) hreceivedPending script
  exact (stands_of_asyncExecOp_done hbody).after hreceived

/-- What a finished or suspended run of `async_exec` shares with the sequential
client: the WinHTTP calls, the single invocation of the handler with the
result, at most one call outstanding, and the bytes appended to the buffer.
What a successful run leaves behind the committed bytes is its own. -/
structure Refines (w t : World) (r : SeqRun) : Prop where
  calls : t.calls = w.calls ++ r.calls
  handled : t.handled = w.handled ++ r.result.toList.map fun ec => (ec, 0)
  outstanding : t.pending.length = if r.result.isSome then 0 else 1
  committed : t.buffer.committed = w.buffer.committed ++ r.bytes
  surplus : r.result = some .success → t.buffer.spare ≠ []
  assertsHold : t.assertsHold = w.assertsHold

theorem Refines.after {w w₁ t : World} {calls : List Call} {bytes : Bytes}
    {ec : Option ErrorCode} {r : SeqRun} (h₁ : Follows w w₁ ⟨calls, ec, bytes⟩)
    (h : Refines w₁ t r) : Refines w t (r.after calls bytes) where
  calls := by rw [h.calls, h₁.calls, List.append_assoc]; rfl
  handled := by rw [h.handled, h₁.handled]; rfl
  outstanding := h.outstanding
  committed := by rw [h.committed, h₁.committed, List.append_assoc]; rfl
  surplus := h.surplus
  assertsHold := h.assertsHold.trans h₁.assertsHold

theorem refines_of_stands {w t : World} {r : SeqRun} (hposted : w.posted = [])
    (h : Stands w .token r t) : Refines w t.runPosted r := by
  rcases r with ⟨calls, _ | ec, bytes⟩
  · obtain ⟨hw', hpending⟩ := h
    have ht : t.posted = [] := hw'.posted.trans hposted
    exact ⟨hw'.calls, by simp [World.runPosted, ht, hw'.handled], hpending, hw'.committed,
      by simp, hw'.assertsHold⟩
  · obtain ⟨w', hw', hpending, rfl, hspare⟩ := h
    have ht : w'.posted = [] := hw'.posted.trans hposted
    exact ⟨hw'.calls, by simp [World.runPosted, Handler.invoke, ht, hw'.handled],
      by simp [World.runPosted, Handler.invoke, hpending], hw'.committed,
      fun hec => hspare (Option.some.inj hec), hw'.assertsHold⟩

theorem refines_post {w w₁ : World} {calls : List Call} (e : Failure)
    (hw : w.pending = []) (hposted : w.posted = [])
    (hw₁ : w₁ = { w with calls := w.calls ++ calls, handle := w₁.handle })
    (script : List Outcome) :
    Refines w ((w₁.post e.val).run script).runPosted ⟨calls, some e.val, []⟩ := by
  have hpending : (w₁.post e.val).pending = [] := by rw [hw₁]; exact hw
  rw [World.run_of_pending_nil hpending, hw₁]
  refine ⟨rfl, by simp [World.runPosted, World.post, hposted],
    by simp [World.runPosted, World.post, hw], (List.append_nil _).symm, fun hec => ?_, rfl⟩
  have := e.failed
  rw [Option.some.inj hec] at this
  cases this

theorem follows_issue (w : World) (c : Call) (ec : Option ErrorCode) :
    Follows w (w.issue c) ⟨[c], ec, []⟩ :=
  follows_of_calls rfl rfl rfl rfl rfl

theorem refines_asyncExecOp (p : Payload) {w : World} (hw : w.pending = [])
    (hposted : w.posted = []) (script : List Outcome) :
    Refines w ((asyncExecOp w p).run script).runPosted (sendReceive p script) :=
  refines_of_stands hposted (run_asyncExecOp p hw script)

theorem refines_secureAndExec (p : Payload) (sync : SyncOutcomes) {w : World}
    (hw : w.pending = []) (hposted : w.posted = []) (script : List Outcome) :
    Refines w ((secureAndExec p sync w .success).run script).runPosted
      (secureAndSend p sync script) := by
  unfold secureAndExec secureAndSend Payload.skipsVerify
  by_cases hskip : (p.secure && p.insecureSkipVerify) = true
  · rw [if_pos hskip, if_pos hskip]
    cases hoption : sync.setOption with
    | some e =>
        simp only [World.setOption, Option.elim_some, e.failed, if_true]
        exact refines_post e hw hposted rfl script
    | none =>
        simp only [World.setOption, Option.elim_none, ErrorCode.failed_success,
          Bool.false_eq_true, if_false]
        have hissued := follows_issue w
          (.setOption optionSecurityFlags Payload.securityFlags) none
        have hpending : (w.issue (.setOption optionSecurityFlags
          Payload.securityFlags)).pending = [] := hw
        exact (refines_asyncExecOp p hpending hposted script).after hissued
  · rw [if_neg hskip, if_neg hskip]
    exact refines_asyncExecOp p hw hposted script

/-- On every payload, buffer and script of outcomes `async_exec` refines the
sequential client. -/
theorem asyncExec_refines (p : Payload) (connect : Nat) (sync : SyncOutcomes)
    (script : List Outcome) (handle : Option Nat) (ctx : AsioRequestContext)
    (buffer : DynamicBuffer UInt8) :
    let w : World := { handle, ctx, buffer }
    Refines w ((asyncExec p connect sync w).2.run script).runPosted
      (reference p connect handle sync script) := by
  intro w
  unfold asyncExec reference
  cases hopen : sync.openRequest with
  | error e =>
      simp only [World.managedOpen, World.openRequest, hopen, e.failed, if_true]
      exact refines_post e rfl rfl rfl script
  | ok handle' =>
      have hopened : Follows w ((w.issue (openArgs p connect).call).assign handle')
          ⟨(openArgs p connect).call :: closeCalls handle, none, []⟩ :=
        follows_of_calls rfl rfl rfl rfl rfl
      cases hcallback : sync.setStatusCallback with
      | some e =>
          simp only [World.managedOpen, World.openRequest, hopen, World.setStatusCallback,
            hcallback, Option.elim_some, ErrorCode.failed_success, Bool.false_eq_true,
            if_false, e.failed, if_true]
          exact refines_post e rfl rfl rfl script
      | none =>
          simp only [World.managedOpen, World.openRequest, hopen, World.setStatusCallback,
            hcallback, Option.elim_none, ErrorCode.failed_success, Bool.false_eq_true,
            if_false]
          have hcalled := hopened.after (follows_issue _ .setStatusCallback none)
          exact (refines_secureAndExec p sync rfl rfl script).after hcalled

end Winasio.Client
