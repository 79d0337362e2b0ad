import Winasio.ThreadProgress

/-!
The end of a request object. The status callback and the composed operations
hold pointers to its context, which is to outlast them: when the object may be
destroyed, and what happens if it is destroyed too early.
-/

namespace Winasio.RequestLifetime

open Winasio.RequestContext
open Winasio.Transition
open Winasio.StepProtocol (Protocol StepRun Phase Returning)
open Winasio.RequestThreads
open Winasio.ThreadProgress

universe u v

/-- A thread uses the object after its end, or a wait is cut off by it, which
the handler of the wait asserts not to happen. -/
inductive Fault where
  | usedAfterEnd
  | waitFailed
  deriving DecidableEq, Repr

/-- The two threads with the life of the object; `cancelled` are the steps
whose wait it has cut off. -/
structure Lifetime where
  protocol : Protocol := {}
  destroyed : Bool := false
  cancelled : List Nat := []
  fault : Option Fault := none
  deriving DecidableEq, Repr

inductive Label where
  | thread (l : StepProtocol.Label)
  | destroy
  deriving DecidableEq, Repr

/-- Whether a step reads or writes the object. The call of a function does so
with its first action; testing what WinHTTP has returned does not. -/
def uses (p : Protocol) : StepProtocol.Label → Bool
  | .issue _ | .waitFires => false
  | .apiAccepts | .apiFails _ | .callbackStep | .handler => true
  | .client =>
      match p.client with
      | .returnApi _ :: _ => false
      | _ => true
  | .callback dwContext _ => dwContext

def Lifetime.faultOf (ndebug : Bool) (s : Lifetime) (l : StepProtocol.Label) : Option Fault :=
  if s.destroyed && uses s.protocol l then
    if ndebug = false ∧ l = .handler ∧ s.protocol.queued.head?.any (· ∈ s.cancelled) then
      some .waitFailed
    else some .usedAfterEnd
  else none

/-- The destructor closes the event, and the handlers of its waits are posted
with an error. -/
def destroy (p : Protocol) : Lifetime where
  protocol := { p with registered := [], queued := p.queued ++ p.registered }
  destroyed := true
  cancelled := p.registered

/-- Nothing is known of a process after a fault. -/
def step (ndebug : Bool) (s : Lifetime) : Label → Option Lifetime
  | .thread l =>
      if s.fault = none then
        (StepProtocol.step s.protocol l).map fun p =>
          { s with protocol := p, fault := s.faultOf ndebug l }
      else none
  | .destroy => if s.fault = none ∧ s.destroyed = false then some (destroy s.protocol) else none

def system (ndebug : Bool) : System Lifetime Label := ⟨step ndebug⟩

/-- No operation is outstanding: the handler of the last one has been called. -/
def AtRest (p : Protocol) : Prop := p.client = [] ∧ p.previousHandled = true

instance (p : Protocol) : Decidable (AtRest p) :=
  inferInstanceAs (Decidable (p.client = [] ∧ p.previousHandled = true))

/-- What the user of the object has to see to. -/
def Careful (s : Lifetime) : Label → Prop
  | .thread (.issue _) => s.destroyed = false
  | .thread _ => True
  | .destroy => AtRest s.protocol

/-- The steps that the threads take by themselves. -/
def unattended : Label → Bool
  | .thread (.issue _) | .destroy => false
  | .thread _ => true

/-- Whatever the threads do by themselves, there is no fault. -/
def Safe (ndebug : Bool) (s : Lifetime) : Prop :=
  ∀ labels t, ((system ndebug).restrict unattended).run s labels = some t → t.fault = none

/-- Whatever is done, there is a fault soon. -/
def Doomed (ndebug : Bool) (s : Lifetime) : Prop :=
  (system ndebug).Within (fun t => t.fault ≠ none) 13 s

theorem step_thread {ndebug : Bool} {s s' : Lifetime} {l : StepProtocol.Label}
    (h : step ndebug s (.thread l) = some s') :
    s.fault = none ∧ ∃ p, StepProtocol.step s.protocol l = some p ∧
      s' = { s with protocol := p, fault := s.faultOf ndebug l } := by
  obtain ⟨hfault, h⟩ := Option.ite_none_right_eq_some.mp h
  obtain ⟨p, hp, rfl⟩ := Option.map_eq_some_iff.mp h
  exact ⟨hfault, p, hp, rfl⟩

theorem step_destroy {ndebug : Bool} {s s' : Lifetime} (h : step ndebug s .destroy = some s') :
    s.fault = none ∧ s.destroyed = false ∧ s' = destroy s.protocol := by
  obtain ⟨⟨hfault, hdestroyed⟩, h⟩ := Option.ite_none_right_eq_some.mp h
  exact ⟨hfault, hdestroyed, (Option.some.inj h).symm⟩

theorem faultOf_of_uses {ndebug : Bool} {s : Lifetime} {l : StepProtocol.Label}
    (hdestroyed : s.destroyed = true) (hl : uses s.protocol l = true) :
    s.faultOf ndebug l ≠ none := by
  rw [Lifetime.faultOf, hdestroyed, hl, Bool.and_self, if_pos rfl]
  split <;> simp

theorem faultOf_of_not_uses {ndebug : Bool} {s : Lifetime} {l : StepProtocol.Label}
    (hl : uses s.protocol l = false) : s.faultOf ndebug l = none := by
  rw [Lifetime.faultOf, hl, Bool.and_false, if_neg Bool.false_ne_true]

theorem faultOf_of_alive {ndebug : Bool} {s : Lifetime} {l : StepProtocol.Label}
    (hdestroyed : s.destroyed = false) : s.faultOf ndebug l = none := by
  rw [Lifetime.faultOf, hdestroyed, Bool.false_and, if_neg Bool.false_ne_true]

theorem previousHandled_concat (p : Protocol) {past : List StepRun} {r : StepRun}
    (hsteps : p.steps = past ++ [r]) (hr : r.handled = []) : p.previousHandled = false := by
  simp [Protocol.previousHandled, hsteps, hr]

theorem previousHandled_of_done (p : Protocol) (done : ∀ r ∈ p.steps, r.Done) :
    p.previousHandled = true := by
  refine Option.all_eq_true_iff_get _ _ |>.mpr fun hsome => ?_
  obtain ⟨o, -, -, hhandled⟩ := done _ (List.mem_of_getLast? (Option.some_get hsome).symm)
  simp [hhandled]

/-- A step is under way, and a thread still has a part of it to do. -/
structure Outstanding (p : Protocol) : Prop where
  unhandled : p.previousHandled = false
  left : .asyncWait ∈ p.client ∨ p.registered ≠ [] ∨ p.queued ≠ []

theorem left_of_returning {k : Nat} {client : List Action} {registered queued : List Nat}
    (hret : Returning k client registered) :
    .asyncWait ∈ client ∨ registered ≠ [] ∨ queued ≠ [] := by
  cases hret with
  | inCall | beforeWait => exact .inl (by simp)
  | waiting => exact .inr (.inl (by simp))

/-- Every step is over and nothing of it is left, or the last one goes on. -/
theorem rest_or_outstanding {p : Protocol} (hp : Phase p) :
    (AtRest p ∧ underway p = none ∧ p.registered = [] ∧ p.queued = [] ∧ weight p = 0) ∨
      (Outstanding p ∧ ¬ AtRest p ∧ underway p ≠ none) := by
  have going : ∀ {past : List StepRun} {r : StepRun}, p.steps = past ++ [r] → r.handled = [] →
      (.asyncWait ∈ p.client ∨ p.registered ≠ [] ∨ p.queued ≠ []) →
      Outstanding p ∧ ¬ AtRest p ∧ underway p ≠ none := by
    intro past r hsteps hr hleft
    have hunhandled := previousHandled_concat p hsteps hr
    refine ⟨⟨hunhandled, hleft⟩, fun hrest => ?_, ?_⟩
    · cases hunhandled.symm.trans hrest.2
    · rw [underway_concat p hsteps hr]
      exact Option.some_ne_none _
  cases hp with
  | idle done =>
      exact .inl ⟨⟨rfl, previousHandled_of_done _ done⟩, underway_of_done _ done, rfl, rfl, rfl⟩
  | preparing n done hn =>
      refine .inr (going rfl rfl (.inl ?_))
      interval_cases n <;> simp [asyncStep, stepReset]
  | accepted done hstate hevent hret => exact .inr (going rfl rfl (left_of_returning hret))
  | recording n done hn hevent hctx hret => exact .inr (going rfl rfl (left_of_returning hret))
  | failing done hevent hec => exact .inr (going rfl rfl (.inl (by simp)))
  | completing n done hn hevent hctx => exact .inr (going rfl rfl (.inl (by simp)))
  | unanswered done hevent hret => exact .inr (going rfl rfl (left_of_returning hret))
  | recorded done hevent hslot hret => exact .inr (going rfl rfl (left_of_returning hret))
  | enabled done hevent hslot => exact .inr (going rfl rfl (.inr (.inr (by simp))))

theorem atRest_iff {p : Protocol} (hp : Phase p) : AtRest p ↔ underway p = none := by
  rcases rest_or_outstanding hp with ⟨hrest, hidle, -⟩ | ⟨-, hnot, hunderway⟩
  · exact iff_of_true hrest hidle
  · exact iff_of_false hnot hunderway

theorem step_issue {p p' : Protocol} {kind : StepKind}
    (h : StepProtocol.step p (.issue kind) = some p') :
    AtRest p ∧ p' = { p with client := kind.initiate, steps := p.steps ++ [{ kind }] } := by
  obtain ⟨hrest, h⟩ := Option.ite_none_right_eq_some.mp h
  exact ⟨hrest, (Option.some.inj h).symm⟩

theorem mem_asyncWait_initiate (kind : StepKind) : .asyncWait ∈ kind.initiate := by
  cases kind <;> decide

theorem weight_step_le {p p' : Protocol} {l : StepProtocol.Label} (hp : Phase p)
    (hweight : weight p ≤ 13) (h : StepProtocol.step p l = some p') : weight p' ≤ 13 := by
  cases l with
  | issue kind =>
      obtain ⟨hrest, rfl⟩ := step_issue h
      rcases rest_or_outstanding hp with ⟨-, -, -, -, hzero⟩ | ⟨-, hnot, -⟩
      · have hsum := sum_cost_initiate kind
        simp only [weight] at hzero ⊢
        omega
      · exact absurd hrest hnot
  | apiAccepts | apiFails | client | callback | callbackStep | waitFires | handler =>
      exact (weight_lt_of_step (by simp) h).le.trans hweight

/-- The object is gone while a thread still has something to do with it. -/
structure Hanging (s : Lifetime) : Prop where
  destroyed : s.destroyed = true
  fault : s.fault = none
  registered : s.protocol.registered = []
  unhandled : s.protocol.previousHandled = false
  left : .asyncWait ∈ s.protocol.client ∨ s.protocol.queued ≠ []

theorem hanging_destroy {p : Protocol} (hp : Outstanding p) : Hanging (destroy p) where
  destroyed := rfl
  fault := rfl
  registered := rfl
  unhandled := hp.unhandled
  left := by
    rcases hp.left with hclient | hregistered | hqueued
    · exact .inl hclient
    · exact .inr (List.append_ne_nil_of_right_ne_nil _ hregistered)
    · exact .inr (List.append_ne_nil_of_left_ne_nil hqueued _)

theorem weight_destroy_le (p : Protocol) : weight (destroy p).protocol ≤ weight p := by
  simp only [weight, destroy, List.length_append, List.length_nil]
  omega

/-- Only two steps leave the object alone: the client learns what WinHTTP has
returned, and a callback is given no context. -/
theorem step_of_not_uses {p p' : Protocol} {l : StepProtocol.Label} (hl : uses p l = false)
    (hissue : ∀ kind, l ≠ .issue kind) (hregistered : p.registered = [])
    (h : StepProtocol.step p l = some p') :
    p'.registered = [] ∧ p'.steps = p.steps ∧ p'.queued = p.queued ∧
      (.asyncWait ∈ p.client → .asyncWait ∈ p'.client) := by
  cases l <;> simp only [StepProtocol.step] at h
  case issue kind => exact absurd rfl (hissue kind)
  case apiAccepts | apiFails | callbackStep | handler => cases hl
  case client =>
    cases hclient : p.client with
    | nil => simp [uses, hclient] at hl
    | cons a rest =>
        cases a with
        | returnApi ec =>
            rw [hclient] at h
            cases h
            refine ⟨hregistered, rfl, rfl, fun hmem => List.mem_append_right _ ?_⟩
            simpa using hmem
        | _ => simp [uses, hclient] at hl
  case callback dwContext n =>
    cases hl
    split at h
    · cases (Option.ite_none_right_eq_some.mp h).2
      exact ⟨hregistered, rfl, rfl, id⟩
    · cases h
  case waitFires =>
    rw [hregistered] at h
    cases h

theorem Hanging.step {ndebug : Bool} {s s' : Lifetime} {l : Label} (hs : Hanging s)
    (h : RequestLifetime.step ndebug s l = some s') :
    weight s'.protocol < weight s.protocol ∧ (s'.fault ≠ none ∨ Hanging s') := by
  cases l with
  | destroy =>
      obtain ⟨-, halive, -⟩ := step_destroy h
      cases hs.destroyed.symm.trans halive
  | thread l =>
      obtain ⟨-, p, hp, rfl⟩ := step_thread h
      have hissue : ∀ kind, l ≠ .issue kind := by
        rintro kind rfl
        cases hs.unhandled.symm.trans (step_issue hp).1.2
      refine ⟨weight_lt_of_step hissue hp, ?_⟩
      by_cases huses : uses s.protocol l = true
      · exact .inl (faultOf_of_uses hs.destroyed huses)
      · have hnot := Bool.eq_false_of_not_eq_true huses
        obtain ⟨hregistered, hsteps, hqueued, hclient⟩ :=
          step_of_not_uses hnot hissue hs.registered hp
        have hunhandled : p.previousHandled = false := by
          rw [Protocol.previousHandled, hsteps]
          exact hs.unhandled
        refine .inr ⟨hs.destroyed, faultOf_of_not_uses hnot, hregistered, hunhandled, ?_⟩
        exact hs.left.imp hclient fun hne => hqueued ▸ hne

theorem Hanging.progress (ndebug : Bool) {s : Lifetime} (hs : Hanging s) :
    ∃ l s', unattended l = true ∧ RequestLifetime.step ndebug s l = some s' := by
  have enabled : ∀ {l p}, unattended (.thread l) = true → StepProtocol.step s.protocol l = some p →
      ∃ l s', unattended l = true ∧ RequestLifetime.step ndebug s l = some s' := by
    intro l p hl hp
    exact ⟨.thread l, _, hl, by rw [RequestLifetime.step, if_pos hs.fault, hp]; rfl⟩
  rcases hs.left with hclient | hqueued
  · obtain ⟨a, rest, hcons⟩ := List.exists_cons_of_ne_nil (List.ne_nil_of_mem hclient)
    cases a with
    | callApi => exact enabled (l := .apiAccepts) rfl (by rw [StepProtocol.step, hcons])
    | _ => exact enabled (l := .client) rfl (by rw [StepProtocol.step, hcons])
  · obtain ⟨k, rest, hcons⟩ := List.exists_cons_of_ne_nil hqueued
    exact enabled (l := .handler) rfl (by rw [StepProtocol.step, hcons])

/-- Whichever steps are possible besides those of the threads, a thread uses
the object that is gone. -/
theorem Hanging.within (ndebug : Bool) {s : Lifetime} {C : Label → Bool}
    (hC : ∀ l, unattended l = true → C l = true) (hs : Hanging s) :
    ((system ndebug).restrict C).Within (fun t => t.fault ≠ none) (weight s.protocol) s := by
  refine System.within_of_measure (I := fun s => s.fault ≠ none ∨ Hanging s)
    (fun s => weight s.protocol) ?_ ?_ (.inr hs)
  · intro s hs hfault
    obtain ⟨l, s', hl, hstep⟩ := (hs.resolve_left hfault).progress ndebug
    exact ⟨l, s', System.step_restrict.mpr ⟨hC l hl, hstep⟩⟩
  · intro s l s' hs hfault hstep
    obtain ⟨hlt, hs'⟩ := (hs.resolve_left hfault).step (System.step_restrict.mp hstep).2
    exact ⟨hs', hlt⟩

theorem Hanging.doomed {ndebug : Bool} {s : Lifetime} (hs : Hanging s)
    (hweight : weight s.protocol ≤ 13) : Doomed ndebug s :=
  (hs.within ndebug (C := fun _ => true) fun _ _ => rfl).weaken hweight

theorem Hanging.not_safe {ndebug : Bool} {s : Lifetime} (hs : Hanging s) : ¬ Safe ndebug s := by
  intro hsafe
  obtain ⟨labels, t, hrun, hfault⟩ := (hs.within ndebug fun _ hl => hl).exists_run
  exact hfault (hsafe labels t hrun)

/-- The object is in use, or it has ended in its time. -/
structure Good (s : Lifetime) : Prop where
  phase : Phase s.protocol
  weight_le : weight s.protocol ≤ 13
  fault : s.fault = none
  ended : s.destroyed = true → AtRest s.protocol

theorem Good.thread {ndebug : Bool} {s s' : Lifetime} {l : StepProtocol.Label} (hs : Good s)
    (hl : s.destroyed = true → ∀ kind, l ≠ .issue kind)
    (h : RequestLifetime.step ndebug s (.thread l) = some s') : Good s' := by
  obtain ⟨-, p, hp, rfl⟩ := step_thread h
  have halive : s.destroyed = false := by
    refine Bool.eq_false_of_not_eq_true fun hdestroyed => ?_
    have hidle := (atRest_iff hs.phase).mp (hs.ended hdestroyed)
    cases (step_eq_none_of_idle hs.phase hidle (hl hdestroyed)).symm.trans hp
  refine ⟨StepProtocol.phase_step hs.phase hp, weight_step_le hs.phase hs.weight_le hp,
    faultOf_of_alive halive, fun hdestroyed => ?_⟩
  cases halive.symm.trans hdestroyed

theorem Good.destroy {s : Lifetime} (hs : Good s) (hrest : AtRest s.protocol) :
    Good (destroy s.protocol) := by
  rcases rest_or_outstanding hs.phase with ⟨-, -, hregistered, -, -⟩ | ⟨-, hnot, -⟩
  · have heq : (RequestLifetime.destroy s.protocol).protocol = s.protocol := by
      rw [RequestLifetime.destroy, hregistered, List.append_nil, ← hregistered]
    refine ⟨?_, ?_, rfl, fun _ => ?_⟩
    all_goals rw [heq]
    · exact hs.phase
    · exact hs.weight_le
    · exact hrest
  · exact absurd hrest hnot

theorem Good.step {ndebug : Bool} {s s' : Lifetime} {l : Label} (hs : Good s)
    (hl : Careful s l) (h : RequestLifetime.step ndebug s l = some s') : Good s' := by
  cases l with
  | destroy =>
      obtain ⟨-, -, rfl⟩ := step_destroy h
      exact hs.destroy hl
  | thread l =>
      refine hs.thread (fun hdestroyed kind heq => ?_) h
      rw [heq] at hl
      cases hdestroyed.symm.trans hl

/-- A step that is not careful leaves a thread with something to do. -/
theorem Good.step_careless {ndebug : Bool} {s s' : Lifetime} {l : Label} (hs : Good s)
    (hl : ¬ Careful s l) (h : RequestLifetime.step ndebug s l = some s') :
    Hanging s' ∧ weight s'.protocol ≤ 13 := by
  cases l with
  | destroy =>
      obtain ⟨-, -, rfl⟩ := step_destroy h
      rcases rest_or_outstanding hs.phase with ⟨hrest, -⟩ | ⟨houtstanding, -⟩
      · exact absurd hrest hl
      · exact ⟨hanging_destroy houtstanding, (weight_destroy_le _).trans hs.weight_le⟩
  | thread l =>
      obtain ⟨-, p, hp, rfl⟩ := step_thread h
      refine ⟨?_, weight_step_le hs.phase hs.weight_le hp⟩
      cases l with
      | issue kind =>
          have hdestroyed : s.destroyed = true := Bool.eq_true_of_not_eq_false hl
          obtain ⟨hrest, rfl⟩ := step_issue hp
          rcases rest_or_outstanding hs.phase with ⟨-, -, hregistered, -, -⟩ | ⟨-, hnot, -⟩
          · exact ⟨hdestroyed, faultOf_of_not_uses rfl, hregistered,
              previousHandled_concat _ rfl rfl, .inl (mem_asyncWait_initiate kind)⟩
          · exact absurd hrest hnot
      | apiAccepts | apiFails | client | callback | callbackStep | waitFires | handler =>
          exact absurd trivial hl

theorem Good.safe {ndebug : Bool} {s : Lifetime} (hs : Good s) : Safe ndebug s := by
  intro labels t hrun
  refine (System.run_preserves (P := Good) (fun s l s' hs hstep => ?_) hs hrun).fault
  obtain ⟨hl, hstep⟩ := System.step_restrict.mp hstep
  cases l with
  | destroy => cases hl
  | thread l =>
      refine hs.thread (fun _ kind heq => ?_) hstep
      rw [heq] at hl
      cases hl

/-- What can be said of every state, whoever is careful. -/
def Sound (s : Lifetime) : Prop :=
  Good s ∨ s.fault ≠ none ∨ Hanging s ∧ weight s.protocol ≤ 13

theorem Sound.step {ndebug : Bool} {s s' : Lifetime} {l : Label} (hs : Sound s)
    (h : RequestLifetime.step ndebug s l = some s') : Sound s' := by
  rcases hs with hgood | hfault | ⟨hhanging, hweight⟩
  · by_cases hl : Careful s l
    · exact .inl (hgood.step hl h)
    · exact .inr (.inr (hgood.step_careless hl h))
  · cases l with
    | thread l => exact absurd (step_thread h).1 hfault
    | destroy => exact absurd (step_destroy h).1 hfault
  · obtain ⟨hlt, hs'⟩ := hhanging.step h
    exact .inr (hs'.imp_right fun hs' => ⟨hs', by omega⟩)

theorem good_start : Good {} where
  phase := .idle (by simp)
  weight_le := by decide
  fault := rfl
  ended := nofun

/-- No thread can come to use an object that is gone exactly as long as the
object is destroyed only where no operation is outstanding, and no operation
begun after that. Otherwise one of them will, whatever WinHTTP does. -/
theorem context_outlasts (ndebug : Bool) (labels : List Label) :
    ((system ndebug).AllStates (Safe ndebug) {} labels ↔
        (system ndebug).AllSteps Careful {} labels) ∧
      (system ndebug).AllStates (fun s => Safe ndebug s ∨ Doomed ndebug s) {} labels := by
  constructor
  · refine System.allStates_iff_allSteps_of_stronger (Q := Good) ?_ ?_ ?_ good_start labels
    · exact fun s hs => hs.safe
    · exact fun s l s' hs hl h => hs.step hl h
    · intro s l s' hs h hsafe
      by_contra hl
      exact (hs.step_careless hl h).1.not_safe hsafe
  · refine System.AllStates.of_invariant (fun _ _ _ => Sound.step) (fun s hs => ?_)
      (.inl good_start) labels
    rcases hs with hgood | hfault | ⟨hhanging, hweight⟩
    · exact .inl hgood.safe
    · exact .inr (.now hfault)
    · exact .inr (hhanging.doomed hweight)

section Programs

variable {σ : Type u} {κ : Type v} {P : Program σ κ}

theorem waiting_eq_none_iff {s s' : σ} {rest : Option Operation.Outcome} {p : Protocol}
    (h : Stands P s rest p s') : P.waiting s' = none ↔ underway p = none := by
  rw [waiting_of_stands h]
  cases h with
  | finished hw hidle => exact iff_of_true hw hidle
  | called hw hcalled => rw [hw, hcalled]; simp
  | answered hw _ hanswered => rw [hw, hanswered]; simp
  | lost hw _ hcalled _ => rw [hw, hcalled]; simp

theorem safe_destroy_iff {ndebug : Bool} {p : Protocol} (hp : Phase p) :
    Safe ndebug (destroy p) ↔ underway p = none := by
  rcases rest_or_outstanding hp with ⟨hrest, hidle, -, -, hzero⟩ | ⟨houtstanding, -, hunderway⟩
  · have hgood : Good { protocol := p } := ⟨hp, hzero.le.trans (Nat.zero_le 13), rfl, nofun⟩
    exact iff_of_true (hgood.destroy hrest).safe hidle
  · exact iff_of_false (hanging_destroy houtstanding).not_safe hunderway

/-- Whatever a program does with its request, and however the two threads are
interleaved, the object can be destroyed exactly where the program does not
wait for the end of a call, so in the handler that is called last. -/
theorem destroy_safe_iff (ndebug : Bool) (P : Program σ κ) (s₀ : σ)
    (labels : List RequestThreads.Label) :
    (threads P).AllStates
      (fun t => Safe ndebug (destroy t.protocol) ↔ P.waiting t.program = none)
      (RequestThreads.start P s₀) labels := by
  refine System.AllStates.of_invariant (fun _ _ _ => follows_step) (fun t ht => ?_)
    ⟨s₀, [], rfl, at_start P s₀⟩ labels
  obtain ⟨s, script, -, hat⟩ := ht
  obtain ⟨rest, -, hstands⟩ := hat.stands
  rw [safe_destroy_iff hat.phase, waiting_eq_none_iff hstands]

end Programs

end Winasio.RequestLifetime
