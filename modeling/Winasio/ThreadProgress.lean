import Winasio.RequestThreads

/-!
Progress of the two threads: between a call and its handler there are at most
thirteen actions, so what a program by itself reaches within some number of
answers the threads reach on every interleaving.
-/

namespace Winasio.ThreadProgress

open Winasio.RequestContext
open Winasio.Operation
open Winasio.Transition
open Winasio.StepProtocol (Protocol Phase Returning)
open Winasio.RequestThreads

universe u v

/-- WinHTTP calls back with the context it was given, and a call that fails
leaves an error. -/
def calm : Label → Bool
  | .apiFails none | .callback false _ => false
  | .apiAccepts | .apiFails (some _) | .client | .callback true _ | .callbackStep | .waitFires
  | .handler => true

/-- An action with the steps it leads to. -/
def cost : Action → Nat
  | .callApi => 6
  | .returnApi ec => if ec.failed then 5 else 1
  | .asyncWait => 3
  | .setState _ | .resetEvent | .clearEc | .clearLen | .writeEc _ | .writeLen _ | .setEvent => 1

/-- How many actions there can still be until the handler has run. -/
def weight (p : Protocol) : Nat :=
  (p.client.map cost).sum + 4 * p.inFlight.length + p.callback.elim 0 (·.2.length) +
    2 * p.registered.length + p.queued.length

theorem cost_returnApi_le (ec : ErrorCode) : cost (.returnApi ec) ≤ 5 := by
  simp only [cost]
  split <;> omega

theorem cost_pos (a : Action) : 0 < cost a := by
  cases a with
  | returnApi ec =>
      simp only [cost]
      split <;> omega
  | _ => simp [cost]

theorem sum_cost_initiate (kind : StepKind) : (kind.initiate.map cost).sum = 13 := by
  cases kind <;> rfl

theorem sum_cost_afterApi_lt (ec : ErrorCode) :
    ((afterApi ec).map cost).sum < cost (.returnApi ec) := by
  by_cases hec : ec.failed = true
  · simp [afterApi, hec, cost, stepComplete]
  · simp [afterApi, hec, cost]

/-- Every step but a new call brings the handler nearer. -/
theorem weight_lt_of_step {p p' : Protocol} {l : StepProtocol.Label}
    (hl : ∀ kind, l ≠ .issue kind) (h : StepProtocol.step p l = some p') :
    weight p' < weight p := by
  cases l <;> simp only [StepProtocol.step] at h
  case issue kind => exact absurd rfl (hl kind)
  case apiAccepts =>
    split at h
    · next rest hclient =>
        cases h
        simp only [weight, hclient, List.map_cons, List.sum_cons, List.length_append,
          List.length_singleton]
        have : cost .callApi = 6 := rfl
        have : cost (.returnApi .success) = 1 := rfl
        omega
    · cases h
  case apiFails ec =>
    split at h
    · next rest hclient =>
        cases h
        simp only [weight, hclient, List.map_cons, List.sum_cons]
        have : cost .callApi = 6 := rfl
        have := cost_returnApi_le ec
        omega
    · cases h
  case client =>
    split at h
    · cases h
    · cases h
    · next ec rest hclient =>
        cases h
        simp only [weight, hclient, List.map_cons, List.sum_cons, List.map_append,
          List.sum_append]
        have := sum_cost_afterApi_lt ec
        omega
    · next rest hclient =>
        cases h
        simp only [weight, hclient, List.map_cons, List.sum_cons, List.length_append,
          List.length_singleton]
        have : cost .asyncWait = 3 := rfl
        omega
    · next a rest _ _ _ hclient =>
        cases h
        simp only [weight, Protocol.perform, hclient, List.map_cons, List.sum_cons]
        have := cost_pos a
        omega
  case callback dwContext n =>
    split at h
    · next k rest hcallback hflight =>
        cases (Option.ite_none_right_eq_some.mp h).2
        cases dwContext with
        | false => simp [weight, Protocol.enterCallback, hcallback, hflight]
        | true =>
            cases hrun : (basicAsioAsyncCallback p.ctx.state n).complete with
            | none => simp [weight, Protocol.enterCallback, hcallback, hflight, hrun]
            | some r =>
                simp [weight, Protocol.enterCallback, hcallback, hflight, hrun, stepComplete]
                omega
    · cases h
  case callbackStep =>
    split at h
    · next k a rest hcallback =>
        cases h
        simp only [weight, Protocol.perform, hcallback, Option.elim_some, List.length_cons]
        split
        · simp only [Option.elim_none]
          omega
        · simp only [Option.elim_some]
          omega
    · cases h
  case waitFires =>
    split at h
    · next k rest hregistered =>
        cases (Option.ite_none_right_eq_some.mp h).2
        simp only [weight, hregistered, List.length_cons, List.length_append, List.length_nil]
        omega
    · cases h
  case handler =>
    split at h
    · next k rest hqueued =>
        cases h
        simp only [weight, Protocol.runHandler, hqueued, List.length_cons]
        omega
    · cases h

/-- A step without an answer has WinHTTP working on it. -/
def Lively (p : Protocol) : Prop := ∀ kind, underway p = some (kind, none) → Asked p

theorem Lively.of_answered {p : Protocol} {kind : StepKind} {x : StepResult}
    (h : underway p = some (kind, some x)) : Lively p := by
  intro kind' hkind
  cases h.symm.trans hkind

theorem asked_of_client {p p' : Protocol} (hp : Asked p)
    (h : StepProtocol.step p .client = some p') : Asked p' := by
  simp only [StepProtocol.step] at h
  split at h
  · cases h
  · cases h
  · next ec rest hclient =>
      cases h
      refine hp.imp_left fun hcall => List.mem_append_right _ ?_
      simpa [hclient] using hcall
  · next rest hclient =>
      cases h
      refine hp.imp_left fun hcall => ?_
      simpa [hclient] using hcall
  · next a rest hcall _ _ hclient =>
      cases h
      refine hp.imp_left fun hmem => ?_
      rw [hclient] at hmem
      exact (List.mem_cons.mp hmem).resolve_left fun ha => hcall ha.symm

theorem asked_of_apiAccepts {p p' : Protocol}
    (h : StepProtocol.step p .apiAccepts = some p') : Asked p' := by
  simp only [StepProtocol.step] at h
  split at h
  · cases h
    exact .inr (by simp)
  · cases h

theorem asked_of_callbackStep {p p' : Protocol} (hp : Asked p)
    (h : StepProtocol.step p .callbackStep = some p') : Asked p' := by
  simp only [StepProtocol.step] at h
  split at h
  · cases h
    exact hp
  · cases h

theorem asked_of_waitFires {p p' : Protocol} (hp : Asked p)
    (h : StepProtocol.step p .waitFires = some p') : Asked p' := by
  simp only [StepProtocol.step] at h
  split at h
  · cases (Option.ite_none_right_eq_some.mp h).2
    exact hp
  · cases h

theorem mem_callApi_initiate (kind : StepKind) : .callApi ∈ kind.initiate := by
  cases kind <;> decide

section Progress

variable {σ : Type u} {κ : Type v} {P : Program σ κ}

theorem lively_issue {p : Protocol} (hidle : underway p = none) (s : σ) (script : List Outcome) :
    Lively (issue P ⟨p, s, script⟩).protocol := by
  unfold issue
  cases P.waiting s with
  | none =>
      intro kind hkind
      cases hidle.symm.trans hkind
  | some c => exact fun _ _ => .inl (mem_callApi_initiate (P.kind c))

theorem weight_issue_le {p : Protocol} (s : σ) (script : List Outcome)
    (hclient : p.client = []) : weight (issue P ⟨p, s, script⟩).protocol ≤ weight p + 13 := by
  unfold issue
  cases P.waiting s with
  | none => exact Nat.le_add_right _ _
  | some c =>
      simp only [weight, sum_cost_initiate, hclient, List.map_nil, List.sum_nil]
      omega

theorem lively_step {t t' : Threads σ} {l : Label} (hp : Phase t.protocol)
    (ht : Lively t.protocol) (hl : calm l = true) (h : step P t l = some t') :
    Lively t'.protocol := by
  have silent : ∀ {l p}, Silent l = true → StepProtocol.step t.protocol l = some p →
      (Asked t.protocol → Asked p) → Lively p := by
    intro l p hsilent hstep hasked kind hkind
    rw [underway_of_silent hsilent hstep] at hkind
    exact hasked (ht kind hkind)
  cases l with
  | apiAccepts =>
      obtain ⟨p, hstep, rfl⟩ := perform_cases h
      exact silent rfl hstep fun _ => asked_of_apiAccepts hstep
  | apiFails e =>
      cases e with
      | none => cases hl
      | some e =>
          obtain ⟨c, -, h⟩ := Option.bind_eq_some_iff.mp h
          obtain ⟨-, p, hstep, rfl⟩ := reply_cases h
          obtain ⟨kind, -, hanswered⟩ := apiFails_cases hp hstep
          exact .of_answered hanswered
  | client =>
      obtain ⟨p, hstep, rfl⟩ := perform_cases h
      exact silent rfl hstep fun hasked => asked_of_client hasked hstep
  | callback dwContext o =>
      cases dwContext with
      | false => cases hl
      | true =>
          obtain ⟨c, -, h⟩ := Option.bind_eq_some_iff.mp h
          obtain ⟨n, -, h⟩ := Option.bind_eq_some_iff.mp h
          obtain ⟨-, p, hstep, rfl⟩ := reply_cases h
          obtain ⟨kind, -, -, hanswered⟩ := callback_cases hp hstep
          exact .of_answered hanswered
  | callbackStep =>
      obtain ⟨p, hstep, rfl⟩ := perform_cases h
      exact silent rfl hstep fun hasked => asked_of_callbackStep hasked hstep
  | waitFires =>
      obtain ⟨p, hstep, rfl⟩ := perform_cases h
      exact silent rfl hstep fun hasked => asked_of_waitFires hasked hstep
  | handler =>
      obtain ⟨c, -, h⟩ := Option.bind_eq_some_iff.mp h
      obtain ⟨t₁, ht₁, rfl⟩ := Option.map_eq_some_iff.mp h
      obtain ⟨p, hstep, rfl⟩ := perform_cases ht₁
      obtain ⟨-, -, -, -, hidle⟩ := handler_cases hp hstep
      exact lively_issue hidle _ _

theorem matches_requestError (kind : StepKind) (e : Failure) :
    kind.Matches (.requestError e.val.value kind.apiId) = true := by
  have := ErrorCode.failed_iff.mp e.failed
  cases kind <;> simpa [StepKind.Matches, StepKind.apiId]

theorem matches_notification {c : κ} {o : Outcome} {n : Notification}
    (h : P.notification c o = some n) : (P.kind c).Matches n = true := by
  cases o with
  | failed e => cases h
  | requestError e =>
      cases h
      exact matches_requestError (P.kind c) e
  | completed len data =>
      cases h
      exact P.completion_matches c len data

/-- What WinHTTP may answer with it may answer by the callback. -/
theorem exists_notification {s : σ} {c : κ} {o : Outcome} (ho : P.admits s c o = true) :
    ∃ o n, P.admits s c o = true ∧ P.notification c o = some n := by
  cases o with
  | failed e => exact ⟨.requestError e, _, by rwa [← P.admits_failed], rfl⟩
  | requestError e => exact ⟨.requestError e, _, ho, rfl⟩
  | completed len data => exact ⟨.completed len data, _, ho, rfl⟩

theorem waiting_of_stands {s s' : σ} {rest : Option Outcome} {p : Protocol}
    (h : Stands P s rest p s') : P.waiting s' = P.waiting s := by
  cases h with
  | finished | called => rfl
  | answered | lost => exact P.waiting_store s _ _

/-- The program by itself, in `s`, has been answered with `script`, and the
threads are not stuck in a call. -/
structure AtWork (P : Program σ κ) (s : σ) (script : List Outcome) (t : Threads σ) : Prop
    extends At P s script t where
  lively : Lively t.protocol

theorem exists_perform {t : Threads σ} {l : StepProtocol.Label} {p : Protocol}
    (h : StepProtocol.step t.protocol l = some p) : ∃ t', t.perform l = some t' := by
  rw [Threads.perform, h]
  exact ⟨_, rfl⟩

theorem exists_callback {s : σ} {t : Threads σ} {c : κ} {o : Outcome} {n : Notification}
    {p : Protocol} (hw : P.waiting s = some c) (ho : P.admits s c o = true)
    (hn : P.notification c o = some n) (hprogram : t.program = s)
    (h : StepProtocol.step t.protocol (.callback true n) = some p) :
    ∃ t', step P t (.callback true o) = some t' := by
  obtain ⟨t', ht'⟩ := exists_perform h
  refine ⟨{ t' with program := P.store s c o, answers := t.answers ++ [o] }, ?_⟩
  rw [step, hprogram, hw, Option.bind_some, hn, Option.bind_some, reply, hprogram, if_pos ho, ht']
  rfl

theorem AtWork.exists_step {s : σ} {script : List Outcome} {t : Threads σ}
    (ht : AtWork P s script t) (hs : ∃ o s', P.answer s o = some s') :
    ∃ l t', calm l = true ∧ step P t l = some t' := by
  obtain ⟨o, s', hs⟩ := hs
  obtain ⟨c, hw, hs⟩ := Option.bind_eq_some_iff.mp hs
  obtain ⟨ho, -⟩ := Option.ite_none_right_eq_some.mp hs
  obtain ⟨o, n, ho, hn⟩ := exists_notification ho
  obtain ⟨p, s', answers⟩ := t
  obtain ⟨⟨hphase, rest, -, hstands⟩, hlively⟩ := ht
  have hwaiting := (waiting_of_stands hstands).trans hw
  dsimp only at hphase hstands hlively
  cases hphase with
  | idle done =>
      cases hstands with
      | finished hw' hfinished => cases hw.symm.trans hw'
      | called hw' h | answered hw' ho' h | lost hw' ho' h hlost =>
          rw [underway_of_done _ done] at h
          cases h
  | preparing n done hn hctx =>
      interval_cases n
      · exact ⟨.client, _, rfl, rfl⟩
      · exact ⟨.client, _, rfl, rfl⟩
      · exact ⟨.client, _, rfl, rfl⟩
      · exact ⟨.client, _, rfl, rfl⟩
      · exact ⟨.apiAccepts, _, rfl, rfl⟩
  | accepted done hstate hevent hret =>
      obtain ⟨rfl, rfl, c', hw', hcalled⟩ :=
        hstands.of_asked (.accepted done hstate hevent hret) (.inr (by simp))
      cases hw.symm.trans hw'
      rw [underway_concat _ rfl rfl] at hcalled
      have hmatches := matches_notification hn
      rw [← (Prod.mk.inj (Option.some.inj hcalled)).1] at hmatches
      refine ⟨.callback true o, ?_⟩
      simp only [calm, true_and]
      exact exists_callback hw ho hn rfl (by simp [StepProtocol.step, hmatches]; rfl)
  | recording n done hn hevent hctx hret =>
      interval_cases n
      · exact ⟨.callbackStep, _, rfl, rfl⟩
      · exact ⟨.callbackStep, _, rfl, rfl⟩
      · exact ⟨.callbackStep, _, rfl, rfl⟩
  | failing done hevent hec => exact ⟨.client, _, rfl, rfl⟩
  | completing n done hn hevent hctx =>
      interval_cases n
      · exact ⟨.client, _, rfl, rfl⟩
      · exact ⟨.client, _, rfl, rfl⟩
      · exact ⟨.client, _, rfl, rfl⟩
      · exact ⟨.client, _, rfl, rfl⟩
  | unanswered done hevent hret =>
      have hasked := hlively _ (by rw [underway_concat _ rfl rfl])
      cases hret <;> simp [Asked] at hasked
  | recorded done hevent hslot hret =>
      cases hret with
      | inCall hec => exact ⟨.client, _, rfl, rfl⟩
      | beforeWait => exact ⟨.client, _, rfl, rfl⟩
      | waiting =>
          refine ⟨.waitFires, ?_⟩
          simp only [calm, true_and]
          exact exists_perform (by simp [StepProtocol.step, hevent]; rfl)
  | enabled done hevent hslot =>
      refine ⟨.handler, ?_⟩
      simp only [calm, true_and, step]
      rw [hwaiting]
      exact ⟨_, rfl⟩

theorem AtWork.step {s : σ} {script : List Outcome} {t t' : Threads σ} {l : Label}
    (ht : AtWork P s script t) (hcalm : calm l = true) (hl : l ≠ .handler)
    (h : RequestThreads.step P t l = some t') :
    AtWork P s script t' ∧ weight t'.protocol < weight t.protocol := by
  refine ⟨⟨ht.toAt.step hl h, lively_step ht.phase ht.lively hcalm h⟩, ?_⟩
  cases l with
  | handler => exact absurd rfl hl
  | apiFails e =>
      cases e with
      | none => cases hcalm
      | some e =>
          obtain ⟨c, -, h⟩ := Option.bind_eq_some_iff.mp h
          obtain ⟨-, p, hstep, rfl⟩ := reply_cases h
          exact weight_lt_of_step (by simp) hstep
  | callback dwContext o =>
      obtain ⟨c, -, h⟩ := Option.bind_eq_some_iff.mp h
      obtain ⟨n, -, h⟩ := Option.bind_eq_some_iff.mp h
      obtain ⟨-, p, hstep, rfl⟩ := reply_cases h
      exact weight_lt_of_step (by simp) hstep
  | apiAccepts | client | callbackStep | waitFires =>
      obtain ⟨p, hstep, rfl⟩ := perform_cases h
      exact weight_lt_of_step (by simp) hstep

theorem AtWork.handler {s : σ} {script : List Outcome} {t t' : Threads σ}
    (ht : AtWork P s script t) (h : RequestThreads.step P t .handler = some t') :
    ∃ o s', P.answer s o = some s' ∧ AtWork P s' (script ++ [o]) t' ∧
      weight t'.protocol < weight t.protocol + 13 := by
  obtain ⟨o, s', p, hanswer, hstep, rfl, hat⟩ := ht.toAt.handler h
  obtain ⟨-, -, hclient, -, hidle⟩ := handler_cases ht.phase hstep
  have hlt := weight_lt_of_step (by simp) hstep
  have hle := weight_issue_le (P := P) s' (script ++ [o]) hclient
  exact ⟨o, s', hanswer, ⟨hat, lively_issue hidle _ _⟩, by omega⟩

def calmThreads (P : Program σ κ) : System (Threads σ) Label := (threads P).restrict calm

/-- What the program reaches by itself the threads reach, thirteen actions
for every answer. -/
theorem within_of_sequential {Q : σ → Prop} {n : Nat} {s : σ} (hs : P.sequential.Within Q n s)
    {script : List Outcome} {t : Threads σ} (ht : AtWork P s script t) :
    (calmThreads P).Within (fun t => ∃ s script, Q s ∧ AtWork P s script t)
      (weight t.protocol + 13 * n) t := by
  induction hs generalizing script t with
  | now hQ => exact .now ⟨_, script, hQ, ht⟩
  | @later n s henabled hnext ih =>
      induction hw : weight t.protocol using Nat.strongRecOn generalizing t with
      | ind w ihw =>
          obtain ⟨l, t', hcalm, hstep⟩ := ht.exists_step henabled
          have later : ∀ l t', (calmThreads P).step t l = some t' →
              (calmThreads P).Within (fun t => ∃ s script, Q s ∧ AtWork P s script t)
                (w + 13 * n + 12) t' := by
            intro l t' hl
            obtain ⟨hcalm, hstep⟩ := System.step_restrict.mp hl
            by_cases hhandler : l = .handler
            · rw [hhandler] at hstep
              obtain ⟨o, s', hanswer, hat, hlt⟩ := ht.handler hstep
              exact (ih o s' hanswer hat).weaken (by omega)
            · obtain ⟨hat, hlt⟩ := ht.step hcalm hhandler hstep
              exact (ihw _ (hw ▸ hlt) hat rfl).weaken (by omega)
          exact .later ⟨l, t', System.step_restrict.mpr ⟨hcalm, hstep⟩⟩ later

end Progress

end Winasio.ThreadProgress
