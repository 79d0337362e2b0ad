import Winasio.Operation
import Winasio.StepProtocol

/-!
A program over a request handle, run by the two threads of `StepProtocol`: its
handlers run where the event of a step enables them, and what a handler calls
next is initiated action by action. Every interleaving is a run of the program
by itself, which gets the answers of WinHTTP one after the other.
-/

namespace Winasio.RequestThreads

open Winasio.RequestContext
open Winasio.Operation
open Winasio.Transition
open Winasio.StepProtocol (Protocol StepRun Phase)

universe u v

/-- The handlers of a client and the memory WinHTTP works on. `waiting` is the
call whose handler has not run, `admits` what WinHTTP may answer it with,
`store` what the answer does to the memory, and `resume` the handler, up to
the next call. -/
structure Program (σ : Type u) (κ : Type v) where
  kind : κ → StepKind
  completion : κ → UInt32 → Bytes → Notification
  completion_matches : ∀ c len data, (kind c).Matches (completion c len data) = true
  waiting : σ → Option κ
  admits : σ → κ → Outcome → Bool
  admits_failed : ∀ s c e, admits s c (.failed e) = admits s c (.requestError e)
  store : σ → κ → Outcome → σ
  waiting_store : ∀ s c o, waiting (store s c o) = waiting s
  resume : σ → ErrorCode × Option Nat → σ

variable {σ : Type u} {κ : Type v}

namespace Program

variable (P : Program σ κ)

def result (c : κ) : Outcome → StepResult
  | .failed e | .requestError e => (e.val, 0)
  | .completed len data => (P.completion c len data).result

/-- What the status callback is called with; a call that fails at once is not
answered by it. -/
def notification (c : κ) : Outcome → Option Notification
  | .failed _ => none
  | .requestError e => some (.requestError e.val.value (P.kind c).apiId)
  | .completed len data => some (P.completion c len data)

def handle (s : σ) (c : κ) (o : Outcome) : σ :=
  P.resume (P.store s c o) ((P.kind c).handlerArgs (P.result c o))

/-- The program by itself: an answer, the handler and the next call in one
step. -/
def answer (s : σ) (o : Outcome) : Option σ :=
  (P.waiting s).bind fun c => if P.admits s c o then some (P.handle s c o) else none

def sequential : System σ Outcome := ⟨P.answer⟩

end Program

/-- The threads: the shared context with the actions on it, the program, and
the answers WinHTTP has given so far. -/
structure Threads (σ : Type u) where
  protocol : Protocol := {}
  program : σ
  answers : List Outcome := []

/-- `apiFails none` is a call that returns `FALSE` and leaves no last error;
`callback` enters the status callback, with the context or with null. -/
inductive Label where
  | apiAccepts
  | apiFails (e : Option Failure)
  | client
  | callback (dwContext : Bool) (o : Outcome)
  | callbackStep
  | waitFires
  | handler
  deriving DecidableEq, Repr

def Threads.perform (t : Threads σ) (l : StepProtocol.Label) : Option (Threads σ) :=
  (StepProtocol.step t.protocol l).map fun p => { t with protocol := p }

section Step

variable (P : Program σ κ)

/-- Begin the call the program has come to, if there is one. -/
def issue (t : Threads σ) : Threads σ :=
  match P.waiting t.program with
  | none => t
  | some c =>
      { t with
        protocol := { t.protocol with
          client := (P.kind c).initiate
          steps := t.protocol.steps ++ [{ kind := P.kind c }] } }

def reply (t : Threads σ) (c : κ) (o : Outcome) (l : StepProtocol.Label) : Option (Threads σ) :=
  if P.admits t.program c o then
    (t.perform l).map fun t' =>
      { t' with program := P.store t.program c o, answers := t.answers ++ [o] }
  else none

/-- The handler reads the context that both threads share. -/
def handler (t : Threads σ) (c : κ) : Option (Threads σ) :=
  (t.perform .handler).map fun t' =>
    issue P { t' with
      program := P.resume t.program
        ((P.kind c).handlerArgs (t.protocol.ctx.stepEc, t.protocol.ctx.stepLen)) }

def step (t : Threads σ) : Label → Option (Threads σ)
  | .apiAccepts => t.perform .apiAccepts
  | .apiFails none => t.perform (.apiFails .success)
  | .apiFails (some e) =>
      (P.waiting t.program).bind fun c => reply P t c (.failed e) (.apiFails e.val)
  | .client => t.perform .client
  | .callback dwContext o =>
      (P.waiting t.program).bind fun c =>
        (P.notification c o).bind fun n => reply P t c o (.callback dwContext n)
  | .callbackStep => t.perform .callbackStep
  | .waitFires => t.perform .waitFires
  | .handler => (P.waiting t.program).bind fun c => handler P t c

def threads : System (Threads σ) Label := ⟨step P⟩

def start (s : σ) : Threads σ := issue P { program := s }

end Step

/-- The step that is under way, with the answer of WinHTTP to it. -/
def underway (p : Protocol) : Option (StepKind × Option StepResult) :=
  p.steps.getLast?.bind fun r => if r.handled = [] then some (r.kind, r.outcome) else none

/-- WinHTTP has an answer to give: the call is still to come, or it was
accepted. -/
def Asked (p : Protocol) : Prop := .callApi ∈ p.client ∨ p.inFlight ≠ []

theorem underway_concat (p : Protocol) {past : List StepRun} {r : StepRun}
    (hsteps : p.steps = past ++ [r]) (hr : r.handled = []) :
    underway p = some (r.kind, r.outcome) := by
  rw [underway, hsteps, List.getLast?_concat, Option.bind_some, if_pos hr]

theorem underway_of_done (p : Protocol) (done : ∀ r ∈ p.steps, r.Done) : underway p = none := by
  refine Option.bind_eq_none_iff.mpr fun r hr => if_neg fun hnil => ?_
  obtain ⟨o, -, -, hhandled⟩ := done r (List.mem_of_getLast? hr)
  rw [hhandled] at hnil
  cases hnil

theorem bind_getLast?_modify {α β : Type*} (l : List α) (k : Nat) (f : α → α) (g : α → Option β)
    (hg : ∀ a, g (f a) = g a) : (l.modify k f).getLast?.bind g = l.getLast?.bind g := by
  rw [List.getLast?_eq_getElem?, List.getLast?_eq_getElem?, List.length_modify,
    List.getElem?_modify]
  cases l[l.length - 1]? with
  | none => rfl
  | some a =>
      change g (if k = l.length - 1 then f a else a) = g a
      split
      · exact hg a
      · rfl

/-- An action on the context changes nothing about the step but that its
result is recorded. -/
theorem underway_perform (p : Protocol) (k : Nat) (a : Action) :
    underway (p.perform k a) = underway p := by
  by_cases ha : a = .setEvent
  · rw [underway, Protocol.perform, if_pos ha]
    exact bind_getLast?_modify _ _ _ _ fun _ => rfl
  · rw [underway, Protocol.perform, if_neg ha]
    rfl

/-- The labels by which WinHTTP does not answer and no handler runs. -/
def Silent : StepProtocol.Label → Bool
  | .apiAccepts | .client | .callbackStep | .waitFires => true
  | .apiFails ec => !ec.failed
  | .issue _ | .callback _ _ | .handler => false

theorem underway_of_silent {p p' : Protocol} {l : StepProtocol.Label} (hl : Silent l = true)
    (h : StepProtocol.step p l = some p') : underway p' = underway p := by
  cases l <;> simp only [StepProtocol.step] at h
  case issue | callback | handler => cases hl
  case apiAccepts =>
    split at h
    · cases h
      rfl
    · cases h
  case apiFails ec =>
    split at h
    · cases h
      rw [if_neg (by simpa [Silent] using hl)]
      rfl
    · cases h
  case client =>
    split at h
    · cases h
    · cases h
    · cases h
      rfl
    · cases h
      rfl
    · cases h
      exact underway_perform p _ _
  case callbackStep =>
    split at h
    · cases h
      exact underway_perform p _ _
    · cases h
  case waitFires =>
    split at h
    · cases (Option.ite_none_right_eq_some.mp h).2
      rfl
    · cases h

/-- Once WinHTTP has no answer to give, no step but the next call changes
that. -/
theorem not_asked_of_silent {p p' : Protocol} {l : StepProtocol.Label} (hl : Silent l = true)
    (hp : ¬ Asked p) (h : StepProtocol.step p l = some p') : ¬ Asked p' := by
  obtain ⟨hcall, hflight⟩ := not_or.mp hp
  cases l <;> simp only [StepProtocol.step] at h
  case issue | callback | handler => cases hl
  case apiAccepts | apiFails =>
    split at h
    · next hclient => exact absurd (hclient ▸ List.mem_cons_self) hcall
    · cases h
  case client =>
    split at h
    · cases h
    · cases h
    · next ec rest hclient =>
        cases h
        rw [hclient] at hcall
        refine not_or.mpr ⟨fun hmem => ?_, hflight⟩
        rcases List.mem_append.mp hmem with hmem | hmem
        · unfold afterApi at hmem
          split at hmem <;> simp [stepComplete] at hmem
        · exact hcall (List.mem_cons_of_mem _ hmem)
    · next rest hclient =>
        cases h
        rw [hclient] at hcall
        exact not_or.mpr ⟨fun hmem => hcall (List.mem_cons_of_mem _ hmem), hflight⟩
    · next hclient =>
        cases h
        rw [hclient] at hcall
        exact not_or.mpr ⟨fun hmem => hcall (List.mem_cons_of_mem _ hmem), hflight⟩
  case callbackStep =>
    split at h
    · cases h
      exact hp
    · cases h
  case waitFires =>
    split at h
    · cases (Option.ite_none_right_eq_some.mp h).2
      exact hp
    · cases h

/-- Where nothing is under way only a new call can be made. -/
theorem step_eq_none_of_idle {p : Protocol} (hp : Phase p) (hidle : underway p = none)
    {l : StepProtocol.Label} (hl : ∀ kind, l ≠ .issue kind) : StepProtocol.step p l = none := by
  cases hp with
  | idle done =>
      cases l with
      | issue kind => exact absurd rfl (hl kind)
      | _ => rfl
  | preparing | accepted | recording | failing | completing | unanswered | recorded | enabled =>
      rw [underway_concat _ rfl rfl] at hidle
      cases hidle

/-- WinHTTP answers only what it was asked. -/
theorem asked_of_answer {p p' : Protocol} {l : StepProtocol.Label}
    (hl : (∃ ec, l = .apiFails ec) ∨ ∃ dwContext n, l = .callback dwContext n)
    (h : StepProtocol.step p l = some p') : Asked p := by
  rcases hl with ⟨ec, rfl⟩ | ⟨dwContext, n, rfl⟩
  · simp only [StepProtocol.step] at h
    split at h
    · next hclient => exact .inl (hclient ▸ List.mem_cons_self)
    · cases h
  · simp only [StepProtocol.step] at h
    split at h
    · next hflight => exact .inr (by simp [hflight])
    · cases h

/-- While WinHTTP has an answer to give, the step under way has none. -/
theorem underway_of_asked {p : Protocol} (hp : Phase p) (hasked : Asked p) :
    ∃ kind, underway p = some (kind, none) := by
  cases hp with
  | preparing | accepted | unanswered => exact ⟨_, by rw [underway_concat _ rfl rfl]⟩
  | idle => simp [Asked] at hasked
  | recording n done hn hevent hctx hret | recorded done hevent hslot hret =>
      cases hret <;> simp [Asked] at hasked
  | failing | enabled => simp [Asked] at hasked
  | completing n done hn =>
      rcases hasked with hmem | hflight
      · rcases List.mem_append.mp hmem with hmem | hmem
        · have := List.mem_of_mem_drop hmem
          simp [stepComplete] at this
        · simp at hmem
      · exact absurd rfl hflight

theorem underway_eq_some {p : Protocol} {kind : StepKind} {outcome : Option StepResult}
    (h : underway p = some (kind, outcome)) :
    ∃ r, p.steps.getLast? = some r ∧ r.handled = [] ∧ r.kind = kind ∧ r.outcome = outcome := by
  obtain ⟨r, hr, hunderway⟩ := Option.bind_eq_some_iff.mp h
  obtain ⟨hhandled, heq⟩ := Option.ite_none_right_eq_some.mp hunderway
  cases heq
  exact ⟨r, hr, hhandled, rfl, rfl⟩

/-- An answer to the step that is under way. -/
theorem underway_of_answered {p p' : Protocol} {kind : StepKind} {outcome : Option StepResult}
    {x : StepResult} (h : underway p = some (kind, outcome))
    (hsteps : p'.steps = p.steps.modify p.current ({ · with outcome := some x })) :
    underway p' = some (kind, some x) := by
  obtain ⟨r, hr, hhandled, rfl, -⟩ := underway_eq_some h
  have hlast : p'.steps.getLast? = some { r with outcome := some x } := by
    rw [List.getLast?_eq_getElem?] at hr
    rw [hsteps, List.getLast?_eq_getElem?, List.length_modify, List.getElem?_modify, hr]
    simp [Protocol.current]
  rw [underway, hlast, Option.bind_some, if_pos hhandled]

theorem apiFails_cases {p p' : Protocol} {e : Failure} (hp : Phase p)
    (h : StepProtocol.step p (.apiFails e.val) = some p') :
    ∃ kind, underway p = some (kind, none) ∧ underway p' = some (kind, some (e.val, 0)) := by
  obtain ⟨kind, hkind⟩ := underway_of_asked hp (asked_of_answer (.inl ⟨_, rfl⟩) h)
  refine ⟨kind, hkind, ?_⟩
  simp only [StepProtocol.step] at h
  split at h
  · cases h
    exact underway_of_answered hkind (if_pos e.failed)
  · cases h

/-- A callback without the context is lost: the step under way has no answer,
and will not get another one. -/
theorem callback_cases {p p' : Protocol} {dwContext : Bool} {n : Notification} (hp : Phase p)
    (h : StepProtocol.step p (.callback dwContext n) = some p') :
    ∃ kind, underway p = some (kind, none) ∧ (dwContext = false → ¬ Asked p') ∧
      underway p' = some (kind, if dwContext then some n.result else none) := by
  obtain ⟨kind, hkind⟩ := underway_of_asked hp (asked_of_answer (.inr ⟨_, _, rfl⟩) h)
  refine ⟨kind, hkind, ?_⟩
  cases hp with
  | accepted done hstate hevent hret =>
      simp only [StepProtocol.step] at h
      cases (Option.ite_none_right_eq_some.mp h).2
      constructor
      · rintro rfl
        cases hret <;> simp [Asked, Protocol.enterCallback]
      · cases dwContext with
        | false => exact hkind
        | true =>
            refine underway_of_answered hkind ?_
            simp [Protocol.enterCallback, Protocol.current]
  | idle | preparing | recording | failing | completing | unanswered | recorded | enabled =>
      simp [StepProtocol.step] at h

theorem handler_cases {p p' : Protocol} (hp : Phase p)
    (h : StepProtocol.step p .handler = some p') :
    ∃ kind, underway p = some (kind, some (p.ctx.stepEc, p.ctx.stepLen)) ∧
      p'.client = [] ∧ p'.previousHandled = true ∧ underway p' = none := by
  cases hp with
  | enabled done hevent hslot =>
      cases h
      refine ⟨_, by rw [underway_concat _ rfl rfl, hslot], rfl, ?_, ?_⟩
      · simp [Protocol.previousHandled, Protocol.runHandler]
      · simp [underway, Protocol.runHandler]
  | idle | preparing | accepted | recording | failing | completing | unanswered | recorded =>
      simp [StepProtocol.step] at h

section Refinement

variable {P : Program σ κ}

/-- The threads against the program by itself, which is in `s`: it is at its
end, in a call, in one whose answer its handler has not got, or in one whose
answer will never reach the handler. -/
inductive Stands (P : Program σ κ) (s : σ) : Option Outcome → Protocol → σ → Prop
  | finished {p : Protocol} : P.waiting s = none → underway p = none → Stands P s none p s
  | called {p : Protocol} {c : κ} : P.waiting s = some c →
      underway p = some (P.kind c, none) → Stands P s none p s
  | answered {p : Protocol} {c : κ} {o : Outcome} : P.waiting s = some c →
      P.admits s c o = true → underway p = some (P.kind c, some (P.result c o)) →
      Stands P s (some o) p (P.store s c o)
  | lost {p : Protocol} {c : κ} {o : Outcome} : P.waiting s = some c →
      P.admits s c o = true → underway p = some (P.kind c, none) → ¬ Asked p →
      Stands P s (some o) p (P.store s c o)

theorem Stands.of_underway {s s' : σ} {rest : Option Outcome} {p p' : Protocol}
    (h : Stands P s rest p s') (hunderway : underway p' = underway p)
    (hasked : ¬ Asked p → ¬ Asked p') : Stands P s rest p' s' := by
  cases h with
  | finished hw hp => exact .finished hw (hunderway.trans hp)
  | called hw hp => exact .called hw (hunderway.trans hp)
  | answered hw ho hp => exact .answered hw ho (hunderway.trans hp)
  | lost hw ho hp hlost => exact .lost hw ho (hunderway.trans hp) (hasked hlost)

/-- The call whose answer WinHTTP can still give is the one the program by
itself waits for. -/
theorem Stands.of_asked {s s' : σ} {rest : Option Outcome} {p : Protocol} (hp : Phase p)
    (h : Stands P s rest p s') (hasked : Asked p) :
    rest = none ∧ s' = s ∧ ∃ c, P.waiting s = some c ∧ underway p = some (P.kind c, none) := by
  obtain ⟨kind, hkind⟩ := underway_of_asked hp hasked
  cases h with
  | finished hw hidle => simp [hidle] at hkind
  | called hw hcalled => exact ⟨rfl, rfl, _, hw, hcalled⟩
  | answered hw ho hanswered => simp [hanswered] at hkind
  | lost hw ho hcalled hlost => exact absurd hasked hlost

theorem perform_cases {t t' : Threads σ} {l : StepProtocol.Label}
    (h : t.perform l = some t') :
    ∃ p, StepProtocol.step t.protocol l = some p ∧ t' = { t with protocol := p } := by
  obtain ⟨p, hp, rfl⟩ := Option.map_eq_some_iff.mp h
  exact ⟨p, hp, rfl⟩

theorem reply_cases {t t' : Threads σ} {c : κ} {o : Outcome} {l : StepProtocol.Label}
    (h : reply P t c o l = some t') :
    P.admits t.program c o = true ∧ ∃ p, StepProtocol.step t.protocol l = some p ∧
      t' = ⟨p, P.store t.program c o, t.answers ++ [o]⟩ := by
  obtain ⟨hadmits, h⟩ := Option.ite_none_right_eq_some.mp h
  obtain ⟨t₁, ht₁, rfl⟩ := Option.map_eq_some_iff.mp h
  obtain ⟨p, hp, rfl⟩ := perform_cases ht₁
  exact ⟨hadmits, p, hp, rfl⟩

theorem result_of_notification {c : κ} {o : Outcome} {n : Notification}
    (h : P.notification c o = some n) : n.result = P.result c o := by
  cases o <;> cases h <;> rfl

/-- The program by itself, in `s`, has been answered with `script`, and the
last answer, if it is not in there, is still on its way to the handler. -/
structure At (P : Program σ κ) (s : σ) (script : List Outcome) (t : Threads σ) : Prop where
  phase : Phase t.protocol
  stands : ∃ rest, t.answers = script ++ rest.toList ∧ Stands P s rest t.protocol t.program

theorem At.silent {s : σ} {script : List Outcome} {t t' : Threads σ} {l : StepProtocol.Label}
    (ht : At P s script t) (hl : Silent l = true) (h : t.perform l = some t') :
    At P s script t' := by
  obtain ⟨p, hp, rfl⟩ := perform_cases h
  obtain ⟨rest, hanswers, hstands⟩ := ht.stands
  exact ⟨StepProtocol.phase_step ht.phase hp, rest, hanswers,
    hstands.of_underway (underway_of_silent hl hp) fun hlost => not_asked_of_silent hl hlost hp⟩

theorem At.apiFails {s : σ} {script : List Outcome} {t t' : Threads σ} {e : Failure}
    (ht : At P s script t) (h : step P t (.apiFails (some e)) = some t') :
    At P s script t' := by
  obtain ⟨c, hc, h⟩ := Option.bind_eq_some_iff.mp h
  obtain ⟨hadmits, p, hp, rfl⟩ := reply_cases h
  obtain ⟨rest, hanswers, hstands⟩ := ht.stands
  obtain ⟨rfl, hprogram, c', hw, hcalled⟩ :=
    hstands.of_asked ht.phase (asked_of_answer (.inl ⟨_, rfl⟩) hp)
  obtain ⟨kind, hkind, hanswered⟩ := apiFails_cases ht.phase hp
  rw [hprogram] at hc hadmits ⊢
  cases hc.symm.trans hw
  cases hkind.symm.trans hcalled
  rw [Option.toList_none, List.append_nil] at hanswers
  exact ⟨StepProtocol.phase_step ht.phase hp, some (.failed e), by rw [hanswers]; rfl,
    .answered hw hadmits hanswered⟩

theorem At.callback {s : σ} {script : List Outcome} {t t' : Threads σ} {dwContext : Bool}
    {o : Outcome} (ht : At P s script t) (h : step P t (.callback dwContext o) = some t') :
    At P s script t' := by
  obtain ⟨c, hc, h⟩ := Option.bind_eq_some_iff.mp h
  obtain ⟨n, hn, h⟩ := Option.bind_eq_some_iff.mp h
  obtain ⟨hadmits, p, hp, rfl⟩ := reply_cases h
  obtain ⟨rest, hanswers, hstands⟩ := ht.stands
  obtain ⟨rfl, hprogram, c', hw, hcalled⟩ :=
    hstands.of_asked ht.phase (asked_of_answer (.inr ⟨_, _, rfl⟩) hp)
  obtain ⟨kind, hkind, hlost, hanswered⟩ := callback_cases ht.phase hp
  rw [hprogram] at hc hadmits ⊢
  cases hc.symm.trans hw
  cases hkind.symm.trans hcalled
  rw [Option.toList_none, List.append_nil] at hanswers
  refine ⟨StepProtocol.phase_step ht.phase hp, some o, by rw [hanswers]; rfl, ?_⟩
  cases dwContext with
  | false => exact .lost hw hadmits hanswered (hlost rfl)
  | true =>
      rw [if_pos rfl, result_of_notification hn] at hanswered
      exact .answered hw hadmits hanswered

theorem At.step {s : σ} {script : List Outcome} {t t' : Threads σ} {l : Label}
    (ht : At P s script t) (hl : l ≠ .handler) (h : step P t l = some t') :
    At P s script t' := by
  cases l with
  | handler => exact absurd rfl hl
  | apiAccepts => exact ht.silent rfl h
  | apiFails e =>
      cases e with
      | none => exact ht.silent rfl h
      | some e => exact ht.apiFails h
  | client => exact ht.silent rfl h
  | callback dwContext o => exact ht.callback h
  | callbackStep => exact ht.silent rfl h
  | waitFires => exact ht.silent rfl h

theorem at_issue {s : σ} {script : List Outcome} {p : Protocol} (hp : Phase p)
    (hclient : p.client = []) (hhandled : p.previousHandled = true) (hidle : underway p = none) :
    At P s script (issue P ⟨p, s, script⟩) := by
  unfold issue
  cases hw : P.waiting s with
  | none => exact ⟨hp, none, by simp, .finished hw hidle⟩
  | some c =>
      have hstep : StepProtocol.step p (.issue (P.kind c)) = some
          { p with client := (P.kind c).initiate, steps := p.steps ++ [{ kind := P.kind c }] } := by
        simp [StepProtocol.step, hclient, hhandled]
      exact ⟨StepProtocol.phase_step hp hstep, none, by simp,
        .called hw (by rw [underway_concat _ rfl rfl])⟩

theorem answer_of_waiting {s : σ} {c : κ} {o : Outcome} (hw : P.waiting s = some c)
    (ho : P.admits s c o = true) : P.answer s o = some (P.handle s c o) := by
  rw [Program.answer, hw, Option.bind_some, if_pos ho]

/-- The handler runs the program by itself one step on, with the oldest
answer it has not got. -/
theorem At.handler {s : σ} {script : List Outcome} {t t' : Threads σ} (ht : At P s script t)
    (h : RequestThreads.step P t .handler = some t') :
    ∃ o s' p, P.answer s o = some s' ∧ StepProtocol.step t.protocol .handler = some p ∧
      t' = issue P ⟨p, s', script ++ [o]⟩ ∧ At P s' (script ++ [o]) t' := by
  obtain ⟨c, hc, h⟩ := Option.bind_eq_some_iff.mp h
  obtain ⟨t₁, ht₁, rfl⟩ := Option.map_eq_some_iff.mp h
  obtain ⟨p, hp, rfl⟩ := perform_cases ht₁
  obtain ⟨kind, hkind, hclient, hhandled, hidle⟩ := handler_cases ht.phase hp
  have hphase := StepProtocol.phase_step ht.phase hp
  obtain ⟨rest, hanswers, hstands⟩ := ht.stands
  obtain ⟨q, s', answers⟩ := t
  dsimp only at hc hkind hanswers hp ⊢
  cases hstands with
  | finished hw hfinished => cases hkind.symm.trans hfinished
  | called hw hcalled => cases hkind.symm.trans hcalled
  | lost hw ho hcalled hlost => cases hkind.symm.trans hcalled
  | answered hw ho hanswered =>
      cases hc.symm.trans ((P.waiting_store s _ _).trans hw)
      obtain ⟨-, hslot⟩ := Prod.mk.inj (Option.some.inj (hkind.symm.trans hanswered))
      rw [Option.some.inj hslot, hanswers]
      exact ⟨_, _, p, answer_of_waiting hw ho, hp, rfl,
        at_issue hphase hclient hhandled hidle⟩

theorem run_concat {T : System σ Outcome} {s₀ s s' : σ} {script : List Outcome} {o : Outcome}
    (hrun : T.run s₀ script = some s) (hstep : T.step s o = some s') :
    T.run s₀ (script ++ [o]) = some s' := by
  rw [System.run_append, hrun, Option.bind_some]
  exact System.run_cons_eq_some.mpr ⟨s', hstep, rfl⟩

def Follows (P : Program σ κ) (s₀ : σ) (t : Threads σ) : Prop :=
  ∃ s script, P.sequential.run s₀ script = some s ∧ At P s script t

theorem at_start (P : Program σ κ) (s₀ : σ) : At P s₀ [] (start P s₀) :=
  at_issue (.idle (by simp)) rfl rfl rfl

theorem follows_step {s₀ : σ} {t t' : Threads σ} {l : Label} (ht : Follows P s₀ t)
    (h : step P t l = some t') : Follows P s₀ t' := by
  obtain ⟨s, script, hrun, hat⟩ := ht
  by_cases hl : l = .handler
  · rw [hl] at h
    obtain ⟨o, s', p, hanswer, -, -, hat'⟩ := hat.handler h
    exact ⟨s', script ++ [o], run_concat hrun hanswer, hat'⟩
  · exact ⟨s, script, hrun, hat.step hl h⟩

/-- Whatever the threads do, the program is where it would be by itself. -/
theorem threads_follow (P : Program σ κ) (s₀ : σ) (labels : List Label) :
    (threads P).AllStates (Follows P s₀) (start P s₀) labels :=
  System.AllStates.of_invariant (fun _ _ _ => follows_step) (fun _ h => h)
    ⟨s₀, [], rfl, at_start P s₀⟩ labels

end Refinement

end Winasio.RequestThreads
