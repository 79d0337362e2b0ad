import Winasio.Controller
import Winasio.EraseFirst

/-!
The chain of `http_connection`s: each of them receives one request, and starts
the next one when the header of its own has come.
-/

namespace Winasio.HttpConnection

open Winasio.Transition
open Winasio.EraseFirst
open Winasio.Convert
open Winasio.Controller (HttpRequest RequestHandler RequestContext Call Outcome Send)

variable {Ω : Type}

/-- The connections by the order in which they were made, and their operations:
those the kernel has, and those that are completed and wait for the executor.
Every handler holds its connection. -/
structure State where
  connections : List RequestContext := []
  inKernel : List Call := []
  queued : List (Call × Outcome) := []
  sends : List Send := []

namespace State

def receiveRequest (s : State) (self : Nat) : State :=
  { s with inKernel := s.inKernel ++ [.receive self] }

/-- `std::make_shared<http_connection>` and `start`. -/
def startConnection (s : State) : State :=
  let self := s.connections.length
  State.receiveRequest { s with connections := s.connections.concat {} } self

def request (s : State) (self : Nat) : Option HttpRequest :=
  s.connections[self]?.bind RequestContext.request

/-- The operation gets stuck where it would read the id of a request that is not
there. -/
def onReceiveRequest (s : State) (self : Nat) : Option State :=
  (s.request self).map fun request =>
    { s with inKernel := s.inKernel ++ [.receiveBody self request.requestId] }

def onRecieveBody (handler : RequestHandler Ω) (captured : Ω) (s : State) (self : Nat) :
    Option State :=
  s.connections[self]?.bind fun connection =>
    connection.request.map fun request =>
      let response :=
        (handler captured request connection.body connection.response).getResponse
      { s with
        connections := s.connections.set self { connection with response }
        inKernel := s.inKernel ++ [.send self request.requestId response.resp.contents]
        sends := s.sends ++ [⟨self, request.requestId, response.resp.contents⟩] }

/-- The completion handlers. After an error they only write to the log. -/
def handle (handler : RequestHandler Ω) (captured : Ω) (s : State) : Call → Outcome → Option State
  | .receive self, .receive (.ok _) => (s.onReceiveRequest self).map startConnection
  | .receiveBody self _, .receiveBody none _ => s.onRecieveBody handler captured self
  | _, _ => some s

end State

/-- The kernel completes an operation of a connection, and the executor runs a
handler. -/
inductive Label (Ω : Type) where
  | complete (self : Nat) (outcome : Outcome)
  | run (self : Nat) (captured : Ω)

def step (handler : RequestHandler Ω) (s : State) : Label Ω → Option State
  | .complete self outcome =>
      match s.inKernel.find? (·.target = self) with
      | some call =>
          if call.admits outcome then
            some { s with
              connections := s.connections.modify self outcome.store
              inKernel := s.inKernel.eraseP (·.target = self)
              queued := s.queued ++ [(call, outcome)] }
          else none
      | none => none
  | .run self captured =>
      match s.queued.find? (·.1.target = self) with
      | some (call, outcome) =>
          { s with queued := s.queued.eraseP (·.1.target = self) }.handle handler captured
            call outcome
      | none => none

def system (handler : RequestHandler Ω) : System State (Label Ω) := ⟨step handler⟩

def start : State := State.startConnection {}

def isReceive : Call → Bool
  | .receive _ => true
  | _ => false

def isHeaderError : Call → Outcome → Bool
  | .receive _, .receive (.error _) => true
  | _, _ => false

/-- The operations that were started and whose handler has not run. -/
def outstanding (s : State) : List Call := s.inKernel ++ s.queued.map Prod.fst

def receives (s : State) : Nat := (outstanding s).countP isReceive

/-- The next client: its header and its body come in, and it is answered. -/
def nextClient (rq : Nat) (request : HttpRequest) (data : Bytes) (captured : Ω) :
    List (Label Ω) :=
  [.complete rq (.receive (.ok request)), .run rq captured,
    .complete rq (.receiveBody none data), .run rq captured]

/-- Exactly one receive is outstanding; while the kernel has it a client that
sends a request is answered. -/
structure Serving (handler : RequestHandler Ω) (s : State) : Prop where
  receives : receives s = 1
  serves : ∀ rq, .receive rq ∈ s.inKernel → ∀ request data captured, ∃ t,
    (system handler).run s (nextClient rq request data captured) = some t ∧
      t.sends = s.sends ++ [⟨rq, request.requestId,
        (handler captured request data {}).getResponse.resp.contents⟩]

/-- The handler that runs is not told that a header receive failed. -/
def NoHeaderError (s : State) : Label Ω → Prop
  | .run self _ => ∀ call outcome,
      s.queued.find? (·.1.target = self) = some (call, outcome) →
        isHeaderError call outcome = false
  | .complete _ _ => True

/-- A connection has at most one operation, and it is fresh while the kernel has
its receive. -/
structure Invariant (s : State) : Prop where
  alone : ((outstanding s).map Call.target).Nodup
  bounded : ∀ call ∈ outstanding s, call.target < s.connections.length
  admitted : ∀ call outcome, (call, outcome) ∈ s.queued → call.admits outcome = true
  fresh : ∀ rq, .receive rq ∈ s.inKernel → s.connections[rq]? = some {}

theorem outstanding_addCall (s : State) (call : Call) :
    (outstanding { s with inKernel := s.inKernel ++ [call] }).Perm (call :: outstanding s) := by
  rw [outstanding, List.append_assoc]
  exact List.perm_middle

namespace Invariant

theorem ofPerm {s t : State} (hs : Invariant s) (calls : List Call)
    (hperm : (outstanding s).Perm (calls ++ outstanding t))
    (hkernel : ∀ call ∈ t.inKernel, call ∈ s.inKernel)
    (hconnections : t.connections = s.connections)
    (hadmitted : ∀ call outcome, (call, outcome) ∈ t.queued → call.admits outcome = true) :
    Invariant t := by
  constructor
  · have hnodup := (hperm.map Call.target).nodup_iff.mp hs.alone
    rw [List.map_append] at hnodup
    exact (List.nodup_append.mp hnodup).2.1
  · intro call hcall
    rw [hconnections]
    exact hs.bounded call (hperm.mem_iff.mpr (List.mem_append_right _ hcall))
  · exact hadmitted
  · intro rq hrq
    rw [hconnections]
    exact hs.fresh rq (hkernel _ hrq)

theorem addCall {s : State} (hs : Invariant s) {call : Call}
    (hnew : call.target ∉ (outstanding s).map Call.target)
    (hlt : call.target < s.connections.length)
    (hfresh : ∀ rq, call = .receive rq → s.connections[rq]? = some {}) :
    Invariant { s with inKernel := s.inKernel ++ [call] } := by
  have hperm := outstanding_addCall s call
  constructor
  · rw [(hperm.map Call.target).nodup_iff]
    exact List.nodup_cons.mpr ⟨hnew, hs.alone⟩
  · intro call' hcall'
    rcases List.mem_cons.mp (hperm.mem_iff.mp hcall') with rfl | hcall'
    · exact hlt
    · exact hs.bounded call' hcall'
  · exact hs.admitted
  · intro rq hrq
    rcases List.mem_append.mp hrq with hrq | hrq
    · exact hs.fresh rq hrq
    · exact hfresh rq (List.mem_singleton.mp hrq).symm

theorem addConnection {s : State} (hs : Invariant s) :
    Invariant { s with connections := s.connections.concat {} } where
  alone := hs.alone
  bounded := by
    intro call hcall
    exact Nat.lt_of_lt_of_le (hs.bounded call hcall) (by simp)
  admitted := hs.admitted
  fresh := by
    intro rq hrq
    have hget := hs.fresh rq hrq
    have hlt : rq < s.connections.length := (List.getElem?_eq_some_iff.mp hget).1
    rw [List.concat_eq_append, List.getElem?_append_left hlt]
    exact hget

theorem startConnection {s : State} (hs : Invariant s) : Invariant s.startConnection := by
  refine hs.addConnection.addCall ?_ ?_ ?_
  · intro hmem
    obtain ⟨call, hcall, htarget⟩ := List.mem_map.mp hmem
    exact Nat.ne_of_lt (hs.bounded call hcall) htarget
  · simp [Call.target]
  · rintro rq ⟨⟩
    simp

/-- A connection whose operation the kernel does not have may change. -/
theorem setConnection {s t : State} (hs : Invariant s) (self : Nat)
    (hself : ∀ call ∈ s.inKernel, call.target ≠ self) (hkernel : t.inKernel = s.inKernel)
    (hqueued : t.queued = s.queued) (hlength : t.connections.length = s.connections.length)
    (hother : ∀ rq, rq ≠ self → t.connections[rq]? = s.connections[rq]?) : Invariant t where
  alone := by
    rw [outstanding, hkernel, hqueued]
    exact hs.alone
  bounded := by
    rw [outstanding, hkernel, hqueued, hlength]
    exact hs.bounded
  admitted := by
    rw [hqueued]
    exact hs.admitted
  fresh := by
    intro rq hrq
    rw [hkernel] at hrq
    rw [hother rq (hself _ hrq)]
    exact hs.fresh rq hrq

theorem kernel_nodup {s : State} (hs : Invariant s) :
    (s.inKernel.map Call.target).Nodup := by
  have hnodup := hs.alone
  rw [outstanding, List.map_append] at hnodup
  exact (List.nodup_append.mp hnodup).1

theorem queued_ne {s : State} (hs : Invariant s) {call : Call} (hcall : call ∈ s.inKernel) :
    ∀ q ∈ s.queued, q.1.target ≠ call.target := by
  intro q hq heq
  have hnodup := hs.alone
  rw [outstanding, List.map_append, List.nodup_append] at hnodup
  have hmem : q.1.target ∈ (s.queued.map Prod.fst).map Call.target :=
    List.mem_map_of_mem (List.mem_map_of_mem hq)
  exact hnodup.2.2 call.target (List.mem_map_of_mem hcall) _ hmem heq.symm

end Invariant

def completed (s : State) (self : Nat) (call : Call) (outcome : Outcome) : State :=
  { s with
    connections := s.connections.modify self outcome.store
    inKernel := s.inKernel.eraseP (·.target = self)
    queued := s.queued ++ [(call, outcome)] }

def popped (s : State) (self : Nat) : State :=
  { s with queued := s.queued.eraseP (·.1.target = self) }

section Step

variable {handler : RequestHandler Ω} {s s' : State} {self : Nat}

theorem step_complete {outcome : Outcome} (h : step handler s (.complete self outcome) = some s') :
    ∃ call, s.inKernel.find? (·.target = self) = some call ∧ call.admits outcome = true ∧
      s' = completed s self call outcome := by
  simp only [step] at h
  split at h
  · rename_i call hcall
    obtain ⟨hadmits, hs'⟩ := Option.ite_none_right_eq_some.mp h
    exact ⟨call, hcall, hadmits, (Option.some.inj hs').symm⟩
  · cases h

theorem step_run {captured : Ω} (h : step handler s (.run self captured) = some s') :
    ∃ call outcome, s.queued.find? (·.1.target = self) = some (call, outcome) ∧
      (popped s self).handle handler captured call outcome = some s' := by
  simp only [step] at h
  split at h
  · rename_i call outcome hcall
    exact ⟨call, outcome, hcall, h⟩
  · cases h

theorem outstanding_completed {call : Call}
    (hcall : s.inKernel.find? (·.target = self) = some call) (outcome : Outcome) :
    (outstanding s).Perm (outstanding (completed s self call outcome)) := by
  have hkernel := (perm_cons_eraseP hcall).append_right (s.queued.map Prod.fst)
  refine hkernel.trans ?_
  rw [outstanding, completed, List.map_append, ← List.append_assoc]
  exact (List.perm_append_singleton _ _).symm

theorem outstanding_popped {call : Call} {outcome : Outcome}
    (hcall : s.queued.find? (·.1.target = self) = some (call, outcome)) :
    (outstanding s).Perm (call :: outstanding (popped s self)) := by
  have hqueued := ((perm_cons_eraseP hcall).map Prod.fst).append_left s.inKernel
  exact hqueued.trans List.perm_middle

theorem Invariant.complete (hs : Invariant s) {call : Call} {outcome : Outcome}
    (hcall : s.inKernel.find? (·.target = self) = some call)
    (hadmits : call.admits outcome = true) :
    Invariant (completed s self call outcome) := by
  have hmoved : Invariant { completed s self call outcome with connections := s.connections } := by
    refine hs.ofPerm [] (outstanding_completed hcall outcome) ?_ rfl ?_
    · intro call' hcall'
      exact List.mem_of_mem_eraseP hcall'
    · intro call' outcome' hq
      rcases List.mem_append.mp hq with hq | hq
      · exact hs.admitted call' outcome' hq
      · cases List.mem_singleton.mp hq
        exact hadmits
  refine hmoved.setConnection self ?_ rfl rfl (List.length_modify ..) ?_
  · intro call' hcall'
    exact key_ne_of_mem_eraseP hs.kernel_nodup hcall hcall'
  · intro rq hrq
    exact List.getElem?_modify_ne _ _ (Ne.symm hrq)

theorem Invariant.pop (hs : Invariant s) {call : Call} {outcome : Outcome}
    (hcall : s.queued.find? (·.1.target = self) = some (call, outcome)) :
    Invariant (popped s self) := by
  refine hs.ofPerm [call] (outstanding_popped hcall) ?_ rfl ?_
  · intro call' hcall'
    exact hcall'
  · intro call' outcome' hq
    exact hs.admitted call' outcome' (List.mem_of_mem_eraseP hq)

theorem Invariant.pop_free (hs : Invariant s) {call : Call} {outcome : Outcome}
    (hcall : s.queued.find? (·.1.target = self) = some (call, outcome)) :
    call.target ∉ (outstanding (popped s self)).map Call.target := by
  have hnodup := ((outstanding_popped hcall).map Call.target).nodup_iff.mp hs.alone
  rw [List.map_cons, List.nodup_cons] at hnodup
  exact hnodup.1

end Step

def answered (handler : RequestHandler Ω) (captured : Ω) (s : State) (self : Nat)
    (connection : RequestContext) (request : HttpRequest) : State :=
  let response := (handler captured request connection.body connection.response).getResponse
  { s with
    connections := s.connections.set self { connection with response }
    inKernel := s.inKernel ++ [.send self request.requestId response.resp.contents]
    sends := s.sends ++ [⟨self, request.requestId, response.resp.contents⟩] }

inductive Handled (handler : RequestHandler Ω) (captured : Ω) (s : State) :
    Call → Outcome → State → Prop
  | header (self : Nat) (received request : HttpRequest) (hrequest : s.request self = some request) :
      Handled handler captured s (.receive self) (.receive (.ok received))
        (State.startConnection
          { s with inKernel := s.inKernel ++ [.receiveBody self request.requestId] })
  | refused (self : Nat) (failure : Failure) :
      Handled handler captured s (.receive self) (.receive (.error failure)) s
  | body (self : Nat) (id : QueueHandle.RequestId) (data : Bytes) (connection : RequestContext)
      (request : HttpRequest) (hconnection : s.connections[self]? = some connection)
      (hrequest : connection.request = some request) :
      Handled handler captured s (.receiveBody self id) (.receiveBody none data)
        (answered handler captured s self connection request)
  | dropped (self : Nat) (id : QueueHandle.RequestId) (failure : Failure) (data : Bytes) :
      Handled handler captured s (.receiveBody self id) (.receiveBody (some failure) data) s
  | sent (self : Nat) (id : QueueHandle.RequestId) (response : Contents)
      (error : Option Failure) :
      Handled handler captured s (.send self id response) (.send error) s

theorem handled_of_handle {handler : RequestHandler Ω} {captured : Ω} {s s' : State} {call : Call}
    {outcome : Outcome} (hadmits : call.admits outcome = true)
    (h : s.handle handler captured call outcome = some s') :
    Handled handler captured s call outcome s' := by
  rcases call with self | ⟨self, id⟩ | ⟨self, id, response⟩ <;>
    rcases outcome with (failure | received) | ⟨_ | failure, data⟩ | error <;>
    try cases hadmits
  · cases h
    exact .refused self failure
  · obtain ⟨t, ht, rfl⟩ := Option.map_eq_some_iff.mp h
    obtain ⟨request, hrequest, rfl⟩ := Option.map_eq_some_iff.mp ht
    exact .header self received request hrequest
  · obtain ⟨connection, hconnection, ht⟩ := Option.bind_eq_some_iff.mp h
    obtain ⟨request, hrequest, rfl⟩ := Option.map_eq_some_iff.mp ht
    exact .body self id data connection request hconnection hrequest
  · cases h
    exact .dropped self id failure data
  · cases h
    exact .sent self id response error

theorem receives_addCall (s : State) (call : Call) :
    receives { s with inKernel := s.inKernel ++ [call] } =
      receives s + if isReceive call then 1 else 0 := by
  have hperm := outstanding_addCall s call
  rw [receives, hperm.countP_eq, List.countP_cons, receives]

theorem receives_startConnection (s : State) : receives s.startConnection = receives s + 1 :=
  receives_addCall { s with connections := s.connections.concat {} } _

section Handled

variable {handler : RequestHandler Ω} {captured : Ω} {s s' : State} {call : Call}
  {outcome : Outcome}

theorem Invariant.handled (hs : Invariant s)
    (hfree : call.target ∉ (outstanding s).map Call.target)
    (hlt : call.target < s.connections.length)
    (h : Handled handler captured s call outcome s') : Invariant s' := by
  cases h with
  | header self received request hrequest =>
      apply Invariant.startConnection
      exact hs.addCall hfree hlt (by rintro rq ⟨⟩)
  | refused | dropped | sent => exact hs
  | body self id data connection request hconnection hrequest =>
      have hset : Invariant { answered handler captured s self connection request with
          inKernel := s.inKernel } := by
        refine hs.setConnection self ?_ rfl rfl (List.length_set ..) ?_
        · intro call hcall htarget
          exact hfree (List.mem_map.mpr ⟨call, List.mem_append_left _ hcall, htarget⟩)
        · intro rq hrq
          exact List.getElem?_set_ne (Ne.symm hrq)
      refine hset.addCall hfree ?_ (by rintro rq ⟨⟩)
      exact Nat.lt_of_lt_of_le hlt (Nat.le_of_eq (List.length_set ..).symm)

/-- A receive is followed by the next one exactly if it has delivered a
header. -/
theorem receives_handled (h : Handled handler captured s call outcome s') :
    receives s' + (if isHeaderError call outcome then 1 else 0) =
      receives s + if isReceive call then 1 else 0 := by
  cases h with
  | header self received request hrequest =>
      exact receives_startConnection _ |>.trans (congrArg Nat.succ (receives_addCall s _))
  | refused | dropped | sent => rfl
  | body self id data connection request hconnection hrequest =>
      exact receives_addCall { answered handler captured s self connection request with
        inKernel := s.inKernel } _

end Handled

theorem Invariant.step {handler : RequestHandler Ω} {s s' : State} {label : Label Ω}
    (hs : Invariant s) (h : step handler s label = some s') : Invariant s' := by
  cases label with
  | complete self outcome =>
      obtain ⟨call, hcall, hadmits, rfl⟩ := step_complete h
      exact hs.complete hcall hadmits
  | run self captured =>
      obtain ⟨call, outcome, hcall, hhandle⟩ := step_run h
      have hmem : (call, outcome) ∈ s.queued := List.mem_of_find?_eq_some hcall
      have hbounded : call.target < s.connections.length :=
        hs.bounded call (List.mem_append_right _ (List.mem_map_of_mem hmem))
      exact (hs.pop hcall).handled (hs.pop_free hcall) hbounded
        (handled_of_handle (hs.admitted call outcome hmem) hhandle)

theorem invariant_start : Invariant start := by
  apply Invariant.startConnection
  constructor
  · exact List.nodup_nil
  · rintro call ⟨⟩
  · rintro call outcome ⟨⟩
  · rintro rq ⟨⟩

theorem receives_completed {s : State} {self : Nat} {call : Call}
    (hcall : s.inKernel.find? (·.target = self) = some call) (outcome : Outcome) :
    receives (completed s self call outcome) = receives s :=
  (outstanding_completed hcall outcome).symm.countP_eq _

theorem receives_popped {s : State} {self : Nat} {call : Call} {outcome : Outcome}
    (hcall : s.queued.find? (·.1.target = self) = some (call, outcome)) :
    receives (popped s self) + (if isReceive call then 1 else 0) = receives s := by
  rw [receives, receives, (outstanding_popped hcall).countP_eq, List.countP_cons]

theorem receives_run {handler : RequestHandler Ω} {s s' : State} {self : Nat} {captured : Ω}
    (hs : Invariant s) (h : HttpConnection.step handler s (.run self captured) = some s') :
    ∃ call outcome, s.queued.find? (·.1.target = self) = some (call, outcome) ∧
      receives s' + (if isHeaderError call outcome then 1 else 0) = receives s := by
  obtain ⟨call, outcome, hcall, hhandle⟩ := step_run h
  have hadmits := hs.admitted call outcome (List.mem_of_find?_eq_some hcall)
  refine ⟨call, outcome, hcall, ?_⟩
  rw [receives_handled (handled_of_handle hadmits hhandle), receives_popped hcall]

/-- The request is there for whatever will read its id. -/
structure Loaded (s : State) : Prop where
  kernel : ∀ call ∈ s.inKernel, isReceive call = false → (s.request call.target).isSome
  queued : ∀ call outcome, (call, outcome) ∈ s.queued → isHeaderError call outcome = false →
    (s.request call.target).isSome

def Keeps (s t : State) : Prop := ∀ rq, (s.request rq).isSome → (t.request rq).isSome

theorem isSome_request {s : State} {rq : Nat} :
    (s.request rq).isSome ↔ ∃ connection request,
      s.connections[rq]? = some connection ∧ connection.request = some request := by
  rw [Option.isSome_iff_exists]
  constructor
  · rintro ⟨request, h⟩
    obtain ⟨connection, hconnection, hrequest⟩ := Option.bind_eq_some_iff.mp h
    exact ⟨connection, request, hconnection, hrequest⟩
  · rintro ⟨connection, request, hconnection, hrequest⟩
    exact ⟨request, Option.bind_eq_some_iff.mpr ⟨connection, hconnection, hrequest⟩⟩

theorem keeps_startConnection (s : State) : Keeps s s.startConnection := by
  intro rq h
  obtain ⟨connection, request, hconnection, hrequest⟩ := isSome_request.mp h
  refine isSome_request.mpr ⟨connection, request, ?_, hrequest⟩
  have hlt : rq < s.connections.length := (List.getElem?_eq_some_iff.mp hconnection).1
  rw [State.startConnection, State.receiveRequest, List.concat_eq_append]
  exact (List.getElem?_append_left hlt).trans hconnection

theorem keeps_modify (s : State) (self : Nat) {f : RequestContext → RequestContext}
    (hf : ∀ connection, connection.request.isSome → (f connection).request.isSome) :
    Keeps s { s with connections := s.connections.modify self f } := by
  intro rq h
  obtain ⟨connection, request, hconnection, hrequest⟩ := isSome_request.mp h
  obtain ⟨request', hrequest'⟩ := Option.isSome_iff_exists.mp
    (hf connection (Option.isSome_iff_exists.mpr ⟨request, hrequest⟩))
  apply isSome_request.mpr
  rw [List.getElem?_modify, hconnection]
  split
  · exact ⟨f connection, request', rfl, hrequest'⟩
  · exact ⟨connection, request, rfl, hrequest⟩

theorem store_keeps (outcome : Outcome) (connection : RequestContext)
    (h : connection.request.isSome) : (outcome.store connection).request.isSome := by
  rcases outcome with (_ | _) | _ | _
  · exact h
  · rfl
  · exact h
  · exact h

namespace Loaded

theorem mono {s t : State} (hs : Loaded s) (hkeeps : Keeps s t)
    (hkernel : ∀ call ∈ t.inKernel, isReceive call = false →
      call ∈ s.inKernel ∨ (t.request call.target).isSome)
    (hqueued : ∀ call outcome, (call, outcome) ∈ t.queued → isHeaderError call outcome = false →
      (call, outcome) ∈ s.queued ∨ (t.request call.target).isSome) : Loaded t := by
  constructor
  · intro call hcall hreceive
    rcases hkernel call hcall hreceive with hold | hnew
    · exact hkeeps _ (hs.kernel call hold hreceive)
    · exact hnew
  · intro call outcome hcall herror
    rcases hqueued call outcome hcall herror with hold | hnew
    · exact hkeeps _ (hs.queued call outcome hold herror)
    · exact hnew

theorem complete {s : State} (hs : Loaded s) (hinv : Invariant s) {self : Nat} {call : Call}
    {outcome : Outcome} (hcall : s.inKernel.find? (·.target = self) = some call)
    (hadmits : call.admits outcome = true) : Loaded (completed s self call outcome) := by
  have hkeeps : Keeps s (completed s self call outcome) := keeps_modify s self (store_keeps outcome)
  have hmem : call ∈ s.inKernel := List.mem_of_find?_eq_some hcall
  have htarget : call.target = self := by simpa using List.find?_some hcall
  have hdelivered : isHeaderError call outcome = false →
      ((completed s self call outcome).request call.target).isSome := by
    intro herror
    rcases call with rq | ⟨rq, id⟩ | ⟨rq, id, response⟩
    · rcases outcome with (failure | request) | _ | _
      · cases herror
      · cases htarget
        apply isSome_request.mpr
        refine ⟨{ request := some request }, request, ?_, rfl⟩
        rw [completed, List.getElem?_modify_eq]
        exact congrArg _ (hinv.fresh rq hmem)
      · cases hadmits
      · cases hadmits
    · exact hkeeps _ (hs.kernel _ hmem rfl)
    · exact hkeeps _ (hs.kernel _ hmem rfl)
  refine hs.mono hkeeps ?_ ?_
  · intro call' hcall' _
    exact .inl (List.mem_of_mem_eraseP hcall')
  · intro call' outcome' hq herror
    rcases List.mem_append.mp hq with hq | hq
    · exact .inl hq
    · cases List.mem_singleton.mp hq
      exact .inr (hdelivered herror)

theorem pop {s : State} (hs : Loaded s) (self : Nat) : Loaded (popped s self) := by
  refine hs.mono (fun _ h => h) ?_ ?_
  · intro call hcall _
    exact .inl hcall
  · intro call outcome hq _
    exact .inl (List.mem_of_mem_eraseP hq)

theorem handled {handler : RequestHandler Ω} {captured : Ω} {s s' : State} {call : Call}
    {outcome : Outcome} (hs : Loaded s) (h : Handled handler captured s call outcome s') :
    Loaded s' := by
  cases h with
  | header self received request hrequest =>
      have hkeeps := keeps_startConnection
        { s with inKernel := s.inKernel ++ [.receiveBody self request.requestId] }
      refine hs.mono hkeeps ?_ ?_
      · intro call hcall hreceive
        rcases List.mem_append.mp hcall with hcall | hcall
        · rcases List.mem_append.mp hcall with hcall | hcall
          · exact .inl hcall
          · cases List.mem_singleton.mp hcall
            exact .inr (hkeeps self (Option.isSome_iff_exists.mpr ⟨request, hrequest⟩))
        · cases List.mem_singleton.mp hcall
          cases hreceive
      · intro call outcome hq _
        exact .inl hq
  | refused | dropped | sent => exact hs
  | body self id data connection request hconnection hrequest =>
      have hlt : self < s.connections.length := (List.getElem?_eq_some_iff.mp hconnection).1
      have hkeeps : Keeps s (answered handler captured s self connection request) := by
        intro rq h
        obtain ⟨connection', request', hconnection', hrequest'⟩ := isSome_request.mp h
        apply isSome_request.mpr
        rw [answered, List.getElem?_set, if_pos hlt]
        split
        · exact ⟨_, request, rfl, hrequest⟩
        · exact ⟨connection', request', hconnection', hrequest'⟩
      refine hs.mono hkeeps ?_ ?_
      · intro call hcall _
        rcases List.mem_append.mp hcall with hcall | hcall
        · exact .inl hcall
        · cases List.mem_singleton.mp hcall
          exact .inr (hkeeps self (isSome_request.mpr ⟨connection, request, hconnection, hrequest⟩))
      · intro call outcome hq _
        exact .inl hq

theorem step {handler : RequestHandler Ω} {s s' : State} {label : Label Ω} (hs : Loaded s)
    (hinv : Invariant s) (h : HttpConnection.step handler s label = some s') : Loaded s' := by
  cases label with
  | complete self outcome =>
      obtain ⟨call, hcall, hadmits, rfl⟩ := step_complete h
      exact hs.complete hinv hcall hadmits
  | run self captured =>
      obtain ⟨call, outcome, hcall, hhandle⟩ := step_run h
      have hadmits := hinv.admitted call outcome (List.mem_of_find?_eq_some hcall)
      exact (hs.pop self).handled (handled_of_handle hadmits hhandle)

end Loaded

theorem loaded_start : Loaded start where
  kernel := by
    intro call hcall hreceive
    cases List.mem_singleton.mp hcall
    cases hreceive
  queued := by
    rintro call outcome ⟨⟩

/-- No handler gets stuck: whatever was completed can be run. -/
theorem run_enabled {handler : RequestHandler Ω} {labels : List (Label Ω)} {s : State}
    (hrun : (system handler).run start labels = some s) {call : Call} {outcome : Outcome}
    (hq : (call, outcome) ∈ s.queued) (captured : Ω) :
    ∃ s', step handler s (.run call.target captured) = some s' := by
  obtain ⟨hinv, hs⟩ : Invariant s ∧ Loaded s :=
    System.run_preserves (P := fun s => Invariant s ∧ Loaded s)
      (fun s l s' hs h => ⟨hs.1.step h, hs.2.step hs.1 h⟩) ⟨invariant_start, loaded_start⟩ hrun
  obtain ⟨⟨call', outcome'⟩, hcall⟩ : ∃ q, s.queued.find? (·.1.target = call.target) = some q :=
    Option.isSome_iff_exists.mp (List.find?_isSome.mpr ⟨(call, outcome), hq, by simp⟩)
  have htarget : call'.target = call.target := by simpa using List.find?_some hcall
  have hmem : (call', outcome') ∈ s.queued := List.mem_of_find?_eq_some hcall
  have hloaded := hs.queued call' outcome' hmem
  simp only [step, hcall]
  rcases call' with rq | ⟨rq, id⟩ | ⟨rq, id, response⟩
  · rcases outcome' with (failure | received) | _ | _
    · exact ⟨_, rfl⟩
    · obtain ⟨request, hrequest⟩ := Option.isSome_iff_exists.mp (hloaded rfl)
      exact ⟨_, Option.map_eq_some_iff.mpr ⟨_, Option.map_eq_some_iff.mpr
        ⟨request, hrequest, rfl⟩, rfl⟩⟩
    · exact ⟨_, rfl⟩
    · exact ⟨_, rfl⟩
  · rcases outcome' with _ | ⟨_ | failure, data⟩ | _
    · exact ⟨_, rfl⟩
    · obtain ⟨connection, request, hconnection, hrequest⟩ := isSome_request.mp (hloaded rfl)
      exact ⟨_, Option.bind_eq_some_iff.mpr ⟨connection, hconnection,
        Option.map_eq_some_iff.mpr ⟨request, hrequest, rfl⟩⟩⟩
    · exact ⟨_, rfl⟩
    · exact ⟨_, rfl⟩
  · exact ⟨_, rfl⟩

/-- An operation completes and its handler runs, where no other handler of the
connection waits. -/
theorem run_complete_run (handler : RequestHandler Ω) {s : State} {self : Nat} {call : Call}
    {outcome : Outcome} (hcall : s.inKernel.find? (·.target = self) = some call)
    (hadmits : call.admits outcome = true)
    (hqueued : ∀ q ∈ s.queued, decide (q.1.target = self) = false) (captured : Ω) :
    (system handler).run s [.complete self outcome, .run self captured] =
      State.handle handler captured
        { s with
          connections := s.connections.modify self outcome.store
          inKernel := s.inKernel.eraseP (·.target = self) } call outcome := by
  have htarget : decide (call.target = self) = true := by simpa using List.find?_some hcall
  have hcomplete : HttpConnection.step handler s (.complete self outcome) =
      some (completed s self call outcome) := by
    simp only [HttpConnection.step, hcall, hadmits, if_true, completed]
  have hfind : (completed s self call outcome).queued.find? (·.1.target = self) =
      some (call, outcome) := find?_append_cons [] hqueued htarget
  have hpop : (completed s self call outcome).queued.eraseP (·.1.target = self) = s.queued := by
    rw [completed, eraseP_append_cons [] hqueued htarget, List.append_nil]
  have hrun : HttpConnection.step handler (completed s self call outcome) (.run self captured) =
      { completed s self call outcome with queued := s.queued }.handle handler captured
        call outcome := by
    simp only [HttpConnection.step, hfind, hpop]
  simp only [System.run, system, hcomplete, Option.bind_some, hrun, Option.bind_fun_some]
  rfl

/-- The header of `rq` has come: its body is received, and the next connection is
started. -/
def headerReceived (s : State) (rq : Nat) (request : HttpRequest) : State :=
  State.startConnection
    { s with
      connections := s.connections.modify rq (Outcome.receive (.ok request)).store
      inKernel := s.inKernel.eraseP (·.target = rq) ++ [.receiveBody rq request.requestId] }

section Serves

variable {s : State} (hs : Invariant s) {rq : Nat} (hrq : .receive rq ∈ s.inKernel)

include hs hrq

theorem kernel_receive : s.inKernel.find? (·.target = rq) = some (.receive rq) :=
  find?_key hs.kernel_nodup hrq

theorem queued_other : ∀ q ∈ s.queued, decide (q.1.target = rq) = false := by
  intro q hq
  exact decide_eq_false (hs.queued_ne hrq q hq)

theorem request_stored (request : HttpRequest) :
    (s.connections.modify rq (Outcome.receive (.ok request)).store)[rq]? =
      some { request := some request } := by
  rw [List.getElem?_modify_eq, hs.fresh rq hrq]
  rfl

theorem run_header (handler : RequestHandler Ω) (request : HttpRequest) (captured : Ω) :
    (system handler).run s [.complete rq (.receive (.ok request)), .run rq captured] =
      some (headerReceived s rq request) := by
  rw [run_complete_run handler (kernel_receive hs hrq) rfl (queued_other hs hrq) captured]
  simp only [State.handle, State.onReceiveRequest, State.request, request_stored hs hrq request,
    Option.bind_some, Option.map_some, headerReceived]

theorem kernel_body (request : HttpRequest) :
    (headerReceived s rq request).inKernel.find? (·.target = rq) =
      some (.receiveBody rq request.requestId) := by
  have hother : ∀ call ∈ s.inKernel.eraseP (·.target = rq), decide (call.target = rq) = false := by
    intro call hcall
    exact decide_eq_false (key_ne_of_mem_eraseP hs.kernel_nodup (kernel_receive hs hrq) hcall)
  change (_ ++ [_] ++ [_]).find? _ = _
  rw [List.append_assoc]
  exact find?_append_cons _ hother (by simp [Call.target])

theorem body_stored (request : HttpRequest) (data : Bytes) :
    ((headerReceived s rq request).connections.modify rq (Outcome.receiveBody none data).store)[rq]? =
      some { request := some request, body := data } := by
  have hstored := request_stored hs hrq request
  have hlt := (List.getElem?_eq_some_iff.mp hstored).1
  rw [List.getElem?_modify_eq]
  change Option.map _ (List.concat _ _)[rq]? = _
  rw [List.concat_eq_append, List.getElem?_append_left hlt, hstored]
  rfl

theorem serves_of_invariant (handler : RequestHandler Ω) (request : HttpRequest) (data : Bytes)
    (captured : Ω) :
    ∃ t, (system handler).run s (nextClient rq request data captured) = some t ∧
      t.sends = s.sends ++ [⟨rq, request.requestId,
        (handler captured request data {}).getResponse.resp.contents⟩] := by
  have hsplit : nextClient rq request data captured =
      [.complete rq (.receive (.ok request)), .run rq captured] ++
        [.complete rq (.receiveBody none data), .run rq captured] := rfl
  rw [hsplit, System.run_append, run_header hs hrq handler request captured, Option.bind_some,
    run_complete_run handler (kernel_body hs hrq request) rfl (queued_other hs hrq) captured]
  simp only [State.handle, State.onRecieveBody, body_stored hs hrq request data,
    Option.bind_some, Option.map_some]
  exact ⟨_, rfl, rfl⟩

end Serves

theorem serving_of_invariant (handler : RequestHandler Ω) {s : State} (hs : Invariant s) :
    Serving handler s ↔ receives s = 1 :=
  ⟨Serving.receives, fun h => ⟨h, fun _ hrq => serves_of_invariant hs hrq handler⟩⟩

theorem serving_step {handler : RequestHandler Ω} {s s' : State} {label : Label Ω}
    (hs : Invariant s) (hserving : Serving handler s)
    (h : step handler s label = some s') :
    Serving handler s' ↔ NoHeaderError s label := by
  rw [serving_of_invariant handler (hs.step h)]
  cases label with
  | complete self outcome =>
      obtain ⟨call, hcall, -, rfl⟩ := step_complete h
      rw [receives_completed hcall, hserving.receives]
      exact iff_of_true rfl trivial
  | run self captured =>
      obtain ⟨call, outcome, hcall, hreceives⟩ := receives_run hs h
      rw [hserving.receives] at hreceives
      constructor
      · rintro hone call' outcome' hcall'
        cases hcall.symm.trans hcall'
        cases herror : isHeaderError call outcome with
        | false => rfl
        | true =>
            rw [hone, herror] at hreceives
            cases hreceives
      · intro hno
        rw [hno call outcome hcall] at hreceives
        exact hreceives

/-- The chain of connections keeps serving exactly as long as no header receive
fails. -/
theorem serving_iff (handler : RequestHandler Ω) (labels : List (Label Ω)) :
    (system handler).AllStates (Serving handler) start labels ↔
      (system handler).AllSteps NoHeaderError start labels :=
  System.allStates_iff_allSteps (fun _ _ _ hs h => hs.step h) (fun _ _ _ => serving_step)
    invariant_start ((serving_of_invariant handler invariant_start).mpr rfl) labels

/-- The handler of a connection that was made without one. -/
def defaultHandler : RequestHandler Unit :=
  fun _ _ _ response => (response.setStatusCode 503).setReason
    ("Not Implemented".toList.map fun c => .ofNat c.toNat)

/-- The first client is gone before the retry with a larger buffer
(`ERROR_CONNECTION_INVALID`); nobody waits for the second. -/
theorem not_serving_clientGone :
    ¬ ∀ labels, (system defaultHandler).AllStates (Serving defaultHandler) start labels := by
  intro h
  have hall := h [.complete 0 (.receive (.error ⟨⟨1229⟩, rfl⟩)), .run 0 ()]
  have hlast := (hall.2 _ rfl).2 _ rfl
  exact absurd hlast.receives (by decide)

end Winasio.HttpConnection
