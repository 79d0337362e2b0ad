import Winasio.ControllerIsolation

/-!
The controller after its request queue was shut down: the receives fail, and
each of them is followed by the next one.
-/

namespace Winasio.ControllerShutdown

open Winasio.Transition
open Winasio.EraseFirst
open Winasio.Convert
open Winasio.Controller
open Winasio.ControllerView
open Winasio.ControllerIsolation

variable {Ω : Type}

/-- No request is received any more; whether the receive was pending or is a new
one, it fails. -/
def afterShutdown : Label Ω → Bool
  | .complete _ (.receive (.ok _)) => false
  | _ => true

def shutdown (handlers : Handlers Ω) : System (State Ω) (Label Ω) :=
  (system handlers).restrict afterShutdown

def isReceiveClosure : Closure → Bool
  | .receive _ => true
  | _ => false

/-- The receive calls made so far: their handler has run, or they are
outstanding. -/
def receiveCalls (s : State Ω) : Nat :=
  s.handled.countP (fun h => isReceiveClosure h.1) + receives s

/-- What there is to do at most until another receive call is made; a handler
may start one operation. -/
def callWork : Call → Nat
  | .receive _ => 1
  | .receiveBody _ _ => 5
  | .send _ _ _ => 2

def work (s : State Ω) : Nat :=
  (s.inKernel.map fun op => callWork op.call + 1).sum +
    (s.queued.map fun q => callWork q.1.call).sum + s.running.toList.length

theorem work_completed {s : State Ω} {target : Nat} {op : Operation}
    (hop : s.inKernel.find? (·.target = target) = some op) (outcome : Outcome) :
    work (completed s target op outcome) < work s := by
  have hsum := sum_map_eraseP (fun op => callWork op.call + 1) hop
  simp only [work, completed, List.map_append, List.sum_append, List.map_cons, List.map_nil,
    List.sum_cons, List.sum_nil]
  omega

theorem work_pop {s : State Ω} (hrunning : s.running = none) {target : Nat} {op : Operation}
    {outcome : Outcome} (hop : s.queued.find? (·.1.target = target) = some (op, outcome)) :
    work (pop s target op outcome) + callWork op.call = work s + 1 := by
  have hsum := sum_map_eraseP (fun q : Operation × Outcome => callWork q.1.call) hop
  simp only [work, pop, hrunning, Option.toList_some, Option.toList_none, List.length_cons,
    List.length_nil] at hsum ⊢
  omega

theorem work_answered (s : State Ω) (rq : Nat) (request : HttpRequest) (ctx : RequestContext)
    (captured : Ω) : work (answered s rq request ctx captured) = work s + 3 := by
  simp only [work, answered, List.map_append, List.sum_append, List.map_cons, List.map_nil,
    List.sum_cons, List.sum_nil, callWork]
  omega

theorem receiveCalls_completed {s : State Ω} {target : Nat} {op : Operation}
    (hop : s.inKernel.find? (·.target = target) = some op) (outcome : Outcome) :
    receiveCalls (completed s target op outcome) = receiveCalls s := by
  rw [receiveCalls, receives_completed hop]
  rfl

theorem handled_of_ran {handlers : Handlers Ω} {captured : Ω} {s s' : State Ω} {target : Nat}
    {stage : Stage Ω} (h : Ran handlers captured target s stage s') :
    s'.handled = s.handled := by
  cases h with
  | header request hbody =>
      obtain ⟨_, -, rfl⟩ := Option.map_eq_some_iff.mp hbody
      rfl
  | refused | dropped | dispatch | finished => rfl

/-- The handler of a receive calls for the next one; any other handler leaves
less to do. -/
theorem run_receives_or_works {handlers : Handlers Ω} {captured : Ω} {s s' : State Ω}
    {target : Nat} (hs : Invariant handlers s)
    (h : step handlers s (.run target captured) = some s') :
    receiveCalls s' = receiveCalls s + 1 ∨
      receiveCalls s' = receiveCalls s ∧ work s' < work s := by
  obtain ⟨stage, hstage⟩ := hs.stage target
  obtain ⟨-, -, -, hreceives⟩ := view_run hs hstage h
  obtain ⟨op, outcome, hrunning, hop, hqueued, -, hran⟩ := ran_of_step hstage h
  have hhandled : s'.handled = s.handled ++ [(op.closure, outcome)] := handled_of_ran hran
  have hcalls : receiveCalls s' =
      receiveCalls s + if isReceiveClosure op.closure then 1 else 0 := by
    rw [receiveCalls, receiveCalls, hhandled, hreceives, List.countP_append,
      List.countP_singleton, Nat.add_right_comm]
  have hpop := work_pop hrunning hop
  cases hran with
  | refused failure =>
      cases hqueued
      exact .inl hcalls
  | header request hbody =>
      cases hqueued
      exact .inl hcalls
  | dropped request failure data =>
      cases hqueued
      change _ + 5 = work s + 1 at hpop
      exact .inr ⟨hcalls, by omega⟩
  | dispatch request data =>
      cases hqueued
      refine .inr ⟨hcalls, ?_⟩
      change _ + 5 = work s + 1 at hpop
      rw [work_answered]
      omega
  | finished request data captured' copy error =>
      cases hqueued
      change _ + 2 = work s + 1 at hpop
      exact .inr ⟨hcalls, by omega⟩

theorem exists_complete (handlers : Handlers Ω) {s : State Ω} {op : Operation}
    (hop : op ∈ s.inKernel) :
    ∃ label s', (shutdown handlers).step s label = some s' := by
  obtain ⟨op', hop'⟩ : ∃ op', s.inKernel.find? (·.target = op.target) = some op' :=
    Option.isSome_iff_exists.mp (List.find?_isSome.mpr ⟨op, hop, by simp⟩)
  obtain ⟨outcome, hadmits, hallowed⟩ : ∃ outcome : Outcome, op'.call.admits outcome = true ∧
      afterShutdown (.complete op.target outcome : Label Ω) = true := by
    cases op'.call with
    | receive target => exact ⟨.receive (.error ⟨⟨995⟩, rfl⟩), rfl, rfl⟩
    | receiveBody target id => exact ⟨.receiveBody none [], rfl, rfl⟩
    | send target id response => exact ⟨.send none, rfl, rfl⟩
  refine ⟨_, completed s op.target op' outcome, System.step_restrict.mpr ⟨hallowed, ?_⟩⟩
  simp only [system, step, hop', hadmits, if_true, completed]

theorem shutdown_progress {handlers : Handlers Ω} (captured : Ω) {s : State Ω}
    (hs : Invariant handlers s) : ∃ label s', (shutdown handlers).step s label = some s' := by
  have hpos : 0 < (outstanding s).countP fun op => isReceive op.call := by
    have := hs.receives
    rw [receives] at this
    omega
  obtain ⟨op, hop, -⟩ := List.countP_pos_iff.mp hpos
  rcases List.mem_append.mp hop with hop | hop
  · exact exists_complete handlers hop
  · obtain ⟨⟨op', outcome⟩, hq, rfl⟩ := List.mem_map.mp hop
    cases hrunning : s.running with
    | none =>
        obtain ⟨s', hs'⟩ := run_enabled hs hrunning hq captured
        exact ⟨.run op'.target captured, s', System.step_restrict.mpr ⟨rfl, hs'⟩⟩
    | some closure =>
        refine ⟨.finish, { s with running := none }, System.step_restrict.mpr ⟨rfl, ?_⟩⟩
        simp only [system, step, hrunning]

theorem step_receives_or_works {handlers : Handlers Ω} {s s' : State Ω} {label : Label Ω}
    (hs : Invariant handlers s) (h : step handlers s label = some s') :
    receiveCalls s' = receiveCalls s + 1 ∨
      receiveCalls s' = receiveCalls s ∧ work s' < work s := by
  cases label with
  | complete target outcome =>
      obtain ⟨op, hop, -, rfl⟩ := step_complete h
      exact .inr ⟨receiveCalls_completed hop outcome, work_completed hop outcome⟩
  | run target captured => exact run_receives_or_works hs h
  | finish =>
      obtain ⟨hrunning, rfl⟩ := step_finish h
      obtain ⟨closure, hclosure⟩ := Option.ne_none_iff_exists'.mp hrunning
      refine .inr ⟨rfl, ?_⟩
      simp only [work, hclosure, Option.toList_some, Option.toList_none, List.length_cons,
        List.length_nil]
      omega

/-- What there is to do until more than `n` receive calls were made. -/
def workUntil (n : Nat) (s : State Ω) : Nat :=
  if n < receiveCalls s then 0 else work s + 1

theorem workUntil_lt {handlers : Handlers Ω} {n : Nat} {s s' : State Ω} {label : Label Ω}
    (hs : Invariant handlers s) (hn : receiveCalls s = n)
    (h : step handlers s label = some s') : workUntil n s' < workUntil n s := by
  rw [workUntil, workUntil, if_neg (Nat.not_lt_of_le (Nat.le_of_eq hn))]
  rcases step_receives_or_works hs h with hcalls | ⟨hcalls, hwork⟩
  · rw [if_pos (by omega)]
    exact Nat.succ_pos _
  · rw [if_neg (by omega)]
    exact Nat.succ_lt_succ hwork

/-- Within finitely many steps, whatever they are, another receive call is
made. -/
theorem within_next_receive {handlers : Handlers Ω} (captured : Ω) {s : State Ω}
    (hs : Invariant handlers s) :
    (shutdown handlers).Within (fun t => receiveCalls s < receiveCalls t)
      (workUntil (receiveCalls s) s) s := by
  refine System.within_of_measure (I := fun t => Invariant handlers t ∧
    receiveCalls s ≤ receiveCalls t) (workUntil (receiveCalls s))
    (fun t ht _ => shutdown_progress captured ht.1) ?_ ⟨hs, Nat.le_refl _⟩
  intro t label t' ht hnot h
  obtain ⟨-, hstep⟩ := System.step_restrict.mp h
  have hcalls : receiveCalls t = receiveCalls s := Nat.le_antisymm (Nat.le_of_not_lt hnot) ht.2
  refine ⟨⟨ht.1.step hstep, ?_⟩, workUntil_lt ht.1 hcalls hstep⟩
  rcases step_receives_or_works ht.1 hstep with hnext | ⟨hnext, -⟩
  · omega
  · omega

/-- From some point on every receive call fails: finitely many are made, and
there comes a state in which none is pending. -/
structure Drains (handlers : Handlers Ω) {s : State Ω}
    (run : (shutdown handlers).MaximalRun s) : Prop where
  finitelyMany : ∃ n, ∀ k t, run.state k = some t → receiveCalls t ≤ n
  idle : ∃ k t, run.state k = some t ∧ receives t = 0

section Run

variable {handlers : Handlers Ω} {s : State Ω} (run : (shutdown handlers).MaximalRun s)

theorem invariant_of_maximalRun (hs : Invariant handlers s) {k : Nat} {t : State Ω}
    (hk : run.state k = some t) : Invariant handlers t :=
  run.preserves (fun _ _ _ hs h => hs.step (System.step_restrict.mp h).2) hs hk

theorem receiveCalls_unbounded (captured : Ω) (hs : Invariant handlers s) (n : Nat) :
    ∃ k t, run.state k = some t ∧ n ≤ receiveCalls t := by
  induction n with
  | zero => exact ⟨0, s, run.first, Nat.zero_le _⟩
  | succ n ih =>
      obtain ⟨k, t, hk, hn⟩ := ih
      have ht := invariant_of_maximalRun run hs hk
      obtain ⟨j, u, hj, hu⟩ := run.exists_of_within (within_next_receive captured ht) hk
      exact ⟨j, u, hj, by omega⟩

theorem not_finitelyMany (captured : Ω) (hs : Invariant handlers s) :
    ¬ ∃ n, ∀ k t, run.state k = some t → receiveCalls t ≤ n := by
  rintro ⟨n, hn⟩
  obtain ⟨k, t, hk, hlt⟩ := receiveCalls_unbounded run captured hs (n + 1)
  exact Nat.not_lt_of_le (hn k t hk) hlt

end Run

/-- Whenever the queue of a running controller is shut down, it makes receive
calls for ever, and one of them is always pending. -/
theorem never_drains (handlers : Handlers Ω) (captured : Ω) {labels : List (Label Ω)}
    {s : State Ω} (hrun : (system handlers).run start labels = some s)
    (run : (shutdown handlers).MaximalRun s) :
    (¬ ∃ n, ∀ k t, run.state k = some t → receiveCalls t ≤ n) ∧
      (∀ k t, run.state k = some t → receives t = 1) ∧ ¬ Drains handlers run := by
  have hs := Invariant.of_run hrun
  have hmany := not_finitelyMany run captured hs
  refine ⟨hmany, ?_, fun h => hmany h.finitelyMany⟩
  intro k t hk
  exact (invariant_of_maximalRun run hs hk).receives

theorem never_drains_start :
    ∃ run : (shutdown (.empty : Handlers Unit)).MaximalRun start,
      (¬ ∃ n, ∀ k t, run.state k = some t → receiveCalls t ≤ n) ∧
        (∀ k t, run.state k = some t → receives t = 1) ∧ ¬ Drains .empty run := by
  obtain ⟨run⟩ := System.MaximalRun.nonempty (shutdown (.empty : Handlers Unit)) start
  have hrun : (system (.empty : Handlers Unit)).run start [] = some start := rfl
  exact ⟨run, never_drains .empty () hrun run⟩

/-- The queue is shut down while nothing but the first receive is pending. -/
theorem not_drains_start :
    ¬ ∀ run : (shutdown (.empty : Handlers Unit)).MaximalRun start, Drains .empty run := by
  intro h
  obtain ⟨run⟩ := System.MaximalRun.nonempty (shutdown (.empty : Handlers Unit)) start
  exact not_finitelyMany run () (invariant_start .empty) (h run).finitelyMany

end Winasio.ControllerShutdown
