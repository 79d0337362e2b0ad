import Mathlib.Data.List.Basic
import Mathlib.Logic.Function.Iterate

/-!
Labelled transition systems given by a guarded step function: whatever the
environment chooses is part of the label, so that a run is a list of labels
and can be replayed.
-/

namespace Winasio.Transition

universe u v

/-- `step s l` is the state after `l`, or `none` where `l` is not enabled. -/
structure System (σ : Type u) (ℓ : Type v) where
  step : σ → ℓ → Option σ

namespace System

variable {σ : Type u} {ℓ : Type v}

/-- Replay a list of labels; `none` as soon as one of them is not enabled. -/
def run (T : System σ ℓ) : σ → List ℓ → Option σ
  | s, [] => some s
  | s, l :: ls => (T.step s l).bind fun s' => T.run s' ls

@[simp] theorem run_nil (T : System σ ℓ) (s : σ) : T.run s [] = some s := rfl

theorem run_cons_eq_some {T : System σ ℓ} {s t : σ} {l : ℓ} {ls : List ℓ} :
    T.run s (l :: ls) = some t ↔ ∃ s', T.step s l = some s' ∧ T.run s' ls = some t := by
  simp [run, Option.bind_eq_some_iff]

/-- A property that is preserved by every step whose label meets `C` holds at
the end of every run whose labels do. -/
theorem run_preserves_of_forall {T : System σ ℓ} {P : σ → Prop} {C : ℓ → Prop}
    (hstep : ∀ s l s', P s → C l → T.step s l = some s' → P s')
    {s t : σ} {ls : List ℓ} (hs : P s) (hls : ∀ l ∈ ls, C l) (hrun : T.run s ls = some t) :
    P t := by
  induction ls generalizing s with
  | nil =>
      cases hrun
      exact hs
  | cons l ls ih =>
      obtain ⟨s', hs', hrest⟩ := run_cons_eq_some.mp hrun
      obtain ⟨hl, hls⟩ := List.forall_mem_cons.mp hls
      exact ih (hstep s l s' hs hl hs') hls hrest

theorem run_preserves {T : System σ ℓ} {P : σ → Prop}
    (hstep : ∀ s l s', P s → T.step s l = some s' → P s')
    {s t : σ} {ls : List ℓ} (hs : P s) (hrun : T.run s ls = some t) : P t :=
  run_preserves_of_forall (C := fun _ => True) (fun s l s' hs _ => hstep s l s' hs) hs
    (fun _ _ => trivial) hrun

/-- `P` holds in every state of the run of `ls` from `s`. -/
def AllStates (T : System σ ℓ) (P : σ → Prop) : σ → List ℓ → Prop
  | s, [] => P s
  | s, l :: ls => P s ∧ ∀ s', T.step s l = some s' → T.AllStates P s' ls

/-- `C` holds at every step of the run of `ls` from `s`. -/
def AllSteps (T : System σ ℓ) (C : σ → ℓ → Prop) : σ → List ℓ → Prop
  | _, [] => True
  | s, l :: ls => ∀ s', T.step s l = some s' → C s l ∧ T.AllSteps C s' ls

theorem AllStates.first {T : System σ ℓ} {P : σ → Prop} {s : σ} {ls : List ℓ}
    (h : T.AllStates P s ls) : P s := by
  cases ls with
  | nil => exact h
  | cons l ls => exact h.1

theorem AllStates.last {T : System σ ℓ} {P : σ → Prop} {s t : σ} {ls : List ℓ}
    (h : T.AllStates P s ls) (hrun : T.run s ls = some t) : P t := by
  induction ls generalizing s with
  | nil =>
      cases hrun
      exact h
  | cons l ls ih =>
      obtain ⟨s', hs', hrest⟩ := run_cons_eq_some.mp hrun
      exact ih (h.2 s' hs') hrest

/-- What follows from an invariant holds in every state of every run. -/
theorem AllStates.of_invariant {T : System σ ℓ} {I P : σ → Prop}
    (hI : ∀ s l s', I s → T.step s l = some s' → I s') (hP : ∀ s, I s → P s) {s : σ} (hs : I s)
    (ls : List ℓ) : T.AllStates P s ls := by
  induction ls generalizing s with
  | nil => exact hP s hs
  | cons l ls ih => exact ⟨hP s hs, fun s' hl => ih (hI s l s' hs hl)⟩

/-- Where `P` follows from `Q`, the steps that meet `C` preserve `Q`, and `P`
survives no other step from a state of `Q`, it holds in every state of a run
exactly if all steps of the run meet `C`. -/
theorem allStates_iff_allSteps_of_stronger {T : System σ ℓ} {P Q : σ → Prop}
    {C : σ → ℓ → Prop} (hPQ : ∀ s, Q s → P s)
    (hQ : ∀ s l s', Q s → C s l → T.step s l = some s' → Q s')
    (hC : ∀ s l s', Q s → T.step s l = some s' → P s' → C s l) {s : σ} (hs : Q s)
    (ls : List ℓ) : T.AllStates P s ls ↔ T.AllSteps C s ls := by
  induction ls generalizing s with
  | nil => exact iff_of_true (hPQ s hs) trivial
  | cons l ls ih =>
      constructor
      · intro h s' hl
        have hrest := h.2 s' hl
        have hstep := hC s l s' hs hl hrest.first
        exact ⟨hstep, (ih (hQ s l s' hs hstep hl)).mp hrest⟩
      · intro h
        refine ⟨hPQ s hs, fun s' hl => ?_⟩
        obtain ⟨hstep, hrest⟩ := h s' hl
        exact (ih (hQ s l s' hs hstep hl)).mpr hrest

/-- Where, under an invariant, `P` survives exactly the steps that meet `C`, it
holds in every state of a run exactly if all steps of the run meet `C`. -/
theorem allStates_iff_allSteps {T : System σ ℓ} {I P : σ → Prop} {C : σ → ℓ → Prop}
    (hI : ∀ s l s', I s → T.step s l = some s' → I s')
    (hP : ∀ s l s', I s → P s → T.step s l = some s' → (P s' ↔ C s l))
    {s : σ} (hs : I s) (hPs : P s) (ls : List ℓ) :
    T.AllStates P s ls ↔ T.AllSteps C s ls := by
  apply allStates_iff_allSteps_of_stronger (Q := fun s => I s ∧ P s) (fun s hs => hs.2) _ _
    ⟨hs, hPs⟩
  · rintro s l s' ⟨hs, hPs⟩ hstep hl
    exact ⟨hI s l s' hs hl, (hP s l s' hs hPs hl).mpr hstep⟩
  · rintro s l s' ⟨hs, hPs⟩ hl hPs'
    exact (hP s l s' hs hPs hl).mp hPs'

theorem AllSteps.of_forall {T : System σ ℓ} {C : σ → ℓ → Prop} (h : ∀ s l, C s l) (s : σ)
    (ls : List ℓ) : T.AllSteps C s ls := by
  induction ls generalizing s with
  | nil => trivial
  | cons l ls ih => exact fun s' _ => ⟨h s l, ih s'⟩

/-- What follows from `D` at every step, under an invariant of the steps that
meet `D`, holds at every step too. -/
theorem AllSteps.mono {T : System σ ℓ} {I : σ → Prop} {C D : σ → ℓ → Prop}
    (hI : ∀ s l s', I s → D s l → T.step s l = some s' → I s')
    (hC : ∀ s l, I s → D s l → C s l) {s : σ} (hs : I s) {ls : List ℓ}
    (h : T.AllSteps D s ls) : T.AllSteps C s ls := by
  induction ls generalizing s with
  | nil => trivial
  | cons l ls ih =>
      intro s' hl
      obtain ⟨hD, hrest⟩ := h s' hl
      exact ⟨hC s l hs hD, ih (hI s l s' hs hD hl) hrest⟩

theorem allSteps_congr {T : System σ ℓ} {I : σ → Prop} {C D : σ → ℓ → Prop}
    (hI : ∀ s l s', I s → T.step s l = some s' → I s')
    (hCD : ∀ s l s', I s → T.step s l = some s' → (C s l ↔ D s l)) {s : σ} (hs : I s)
    (ls : List ℓ) : T.AllSteps C s ls ↔ T.AllSteps D s ls := by
  induction ls generalizing s with
  | nil => rfl
  | cons l ls ih =>
      apply forall₂_congr
      intro s' hl
      rw [hCD s l s' hs hl, ih (hI s l s' hs hl)]

/-- Where, under an invariant that the steps that meet `C` preserve, a step of
`T` is matched by `T'` exactly if it meets `C`, the two do the same on every
beginning of a run exactly if all steps of the run meet `C`. -/
theorem forall_prefix_run_eq_iff_allSteps {τ : Type*} {T : System σ ℓ} {T' : System τ ℓ}
    {f : σ → τ} {I : σ → Prop} {C : σ → ℓ → Prop}
    (hI : ∀ s l s', I s → C s l → T.step s l = some s' → I s')
    (hC : ∀ s l, I s →
      (T'.step (f s) l = (T.step s l).map f ↔ ∀ s', T.step s l = some s' → C s l))
    {s : σ} (hs : I s) (ls : List ℓ) :
    (∀ ls', ls' <+: ls → T'.run (f s) ls' = (T.run s ls').map f) ↔ T.AllSteps C s ls := by
  induction ls generalizing s with
  | nil =>
      refine iff_of_true (fun ls' hls' => ?_) trivial
      rw [List.prefix_nil.mp hls']
      rfl
  | cons l ls ih =>
      constructor
      · intro h s' hl
        have hfirst := h [l] ⟨ls, rfl⟩
        simp only [run, Option.bind_fun_some] at hfirst
        have hstep := (hC s l hs).mp hfirst s' hl
        refine ⟨hstep, (ih (hI s l s' hs hstep hl)).mp fun ls' hls' => ?_⟩
        have hrest := h (l :: ls') (List.cons_prefix_cons.mpr ⟨rfl, hls'⟩)
        simpa only [run, hfirst, hl, Option.map_some, Option.bind_some] using hrest
      · intro h ls' hls'
        cases ls' with
        | nil => rfl
        | cons l' ls' =>
            obtain ⟨rfl, hrest'⟩ := List.cons_prefix_cons.mp hls'
            have hfirst := (hC s l' hs).mpr fun s' hl => (h s' hl).1
            cases hl : T.step s l' with
            | none => simp [run, hfirst, hl]
            | some s' =>
                obtain ⟨hstep, hrest⟩ := h s' hl
                have hrun := (ih (hI s l' s' hs hstep hl)).mpr hrest ls' hrest'
                simpa [run, hfirst, hl] using hrun

theorem allSteps_iff_forall {T : System σ ℓ} {C : ℓ → Prop}
    (htotal : ∀ s l, ∃ s', T.step s l = some s') {s : σ} {ls : List ℓ} :
    T.AllSteps (fun _ l => C l) s ls ↔ ∀ l ∈ ls, C l := by
  induction ls generalizing s with
  | nil => simp [AllSteps]
  | cons l ls ih =>
      obtain ⟨s', hs'⟩ := htotal s l
      rw [List.forall_mem_cons]
      constructor
      · intro h
        exact ⟨(h s' hs').1, ih.mp (h s' hs').2⟩
      · rintro ⟨hl, hls⟩ t -
        exact ⟨hl, ih.mpr hls⟩

theorem exists_run {T : System σ ℓ} (htotal : ∀ s l, ∃ s', T.step s l = some s') (s : σ)
    (ls : List ℓ) : ∃ t, T.run s ls = some t := by
  induction ls generalizing s with
  | nil => exact ⟨s, rfl⟩
  | cons l ls ih =>
      obtain ⟨s', hs'⟩ := htotal s l
      obtain ⟨t, ht⟩ := ih s'
      exact ⟨t, run_cons_eq_some.mpr ⟨s', hs', ht⟩⟩

/-- Every maximal run from `s` meets `P` after at most `n` steps: as long as
`P` does not hold some step is enabled, and whichever is taken, `P` is met
within the steps that are left. -/
inductive Within (T : System σ ℓ) (P : σ → Prop) : Nat → σ → Prop
  | now {n : Nat} {s : σ} : P s → Within T P n s
  | later {n : Nat} {s : σ} : (∃ l s', T.step s l = some s') →
      (∀ l s', T.step s l = some s' → Within T P n s') → Within T P (n + 1) s

theorem Within.weaken {T : System σ ℓ} {P : σ → Prop} {m n : Nat} {s : σ}
    (hmn : m ≤ n) (h : T.Within P m s) : T.Within P n s := by
  induction h generalizing n with
  | now hs => exact .now hs
  | later henabled _ ih =>
      obtain ⟨n, rfl⟩ : ∃ k, n = k + 1 := ⟨n - 1, by omega⟩
      exact .later henabled fun l s' hl => ih l s' hl (by omega)

theorem Within.mono {T : System σ ℓ} {P Q : σ → Prop} {n : Nat} {s : σ} (h : T.Within P n s)
    (hPQ : ∀ s, P s → Q s) : T.Within Q n s := by
  induction h with
  | now hs => exact .now (hPQ _ hs)
  | later henabled _ ih => exact .later henabled ih

theorem Within.exists_run {T : System σ ℓ} {P : σ → Prop} {n : Nat} {s : σ}
    (h : T.Within P n s) : ∃ ls t, T.run s ls = some t ∧ P t := by
  induction h with
  | now hs => exact ⟨[], _, rfl, hs⟩
  | later henabled _ ih =>
      obtain ⟨l, s', hl⟩ := henabled
      obtain ⟨ls, t, hrun, ht⟩ := ih l s' hl
      exact ⟨l :: ls, t, run_cons_eq_some.mpr ⟨s', hl, hrun⟩, ht⟩

/-- Where no step leaves a state of `P`, a run is never longer than the bound
and it can be continued until it meets `P`. -/
theorem Within.of_run {T : System σ ℓ} {P : σ → Prop} {n : Nat} {s t : σ} {ls : List ℓ}
    (hP : ∀ s, P s → ∀ l, T.step s l = none) (h : T.Within P n s)
    (hrun : T.run s ls = some t) :
    ls.length ≤ n ∧ (P t ∨ ∃ l t', T.step t l = some t') := by
  induction h generalizing ls with
  | now hs =>
      rcases ls with _ | ⟨l, ls⟩
      · cases hrun
        exact ⟨Nat.zero_le _, .inl hs⟩
      · obtain ⟨s', hs', -⟩ := run_cons_eq_some.mp hrun
        simp [hP _ hs l] at hs'
  | later henabled _ ih =>
      rcases ls with _ | ⟨l, ls⟩
      · cases hrun
        exact ⟨Nat.zero_le _, .inr henabled⟩
      · obtain ⟨s', hs', hrest⟩ := run_cons_eq_some.mp hrun
        obtain ⟨hlength, hend⟩ := ih l s' hs' hrest
        exact ⟨Nat.succ_le_succ hlength, hend⟩

/-- Progress and a decreasing measure, both under an invariant, bound the
number of steps to `P`. -/
theorem within_of_measure {T : System σ ℓ} {P I : σ → Prop} (μ : σ → Nat)
    (hprogress : ∀ s, I s → ¬ P s → ∃ l s', T.step s l = some s')
    (hstep : ∀ s l s', I s → ¬ P s → T.step s l = some s' → I s' ∧ μ s' < μ s)
    {s : σ} (hs : I s) : T.Within P (μ s) s := by
  induction hn : μ s using Nat.strongRecOn generalizing s with
  | ind n ih =>
      by_cases hP : P s
      · exact .now hP
      · obtain ⟨l, s', hl⟩ := hprogress s hs hP
        have hpos : 0 < n := by
          have := (hstep s l s' hs hP hl).2
          omega
        obtain ⟨m, rfl⟩ : ∃ m, n = m + 1 := ⟨n - 1, by omega⟩
        refine .later ⟨l, s', hl⟩ fun l s' hl => ?_
        obtain ⟨hI, hlt⟩ := hstep s l s' hs hP hl
        exact (ih (μ s') (by omega) hI rfl).weaken (by omega)

theorem run_append (T : System σ ℓ) (s : σ) (ls ls' : List ℓ) :
    T.run s (ls ++ ls') = (T.run s ls).bind fun t => T.run t ls' := by
  induction ls generalizing s with
  | nil => rfl
  | cons l ls ih =>
      simp only [List.cons_append, run, Option.bind_assoc]
      exact congrArg _ (funext ih)

/-- The system without the labels that do not meet `C`. -/
def restrict (T : System σ ℓ) (C : ℓ → Bool) : System σ ℓ :=
  ⟨fun s l => if C l then T.step s l else none⟩

theorem step_restrict {T : System σ ℓ} {C : ℓ → Bool} {s s' : σ} {l : ℓ} :
    (T.restrict C).step s l = some s' ↔ C l = true ∧ T.step s l = some s' :=
  Option.ite_none_right_eq_some

open Classical in
/-- One of the enabled steps, if there is one. -/
noncomputable def someStep (T : System σ ℓ) (s : σ) : Option σ :=
  if h : ∃ l s', T.step s l = some s' then some h.choose_spec.choose else none

theorem step_of_someStep {T : System σ ℓ} {s s' : σ} (h : T.someStep s = some s') :
    ∃ l, T.step s l = some s' := by
  obtain ⟨hstep, hs'⟩ := Option.dite_none_right_eq_some.mp h
  cases hs'
  exact ⟨_, hstep.choose_spec.choose_spec⟩

theorem step_eq_none_of_someStep {T : System σ ℓ} {s : σ} (h : T.someStep s = none) (l : ℓ) :
    T.step s l = none := by
  by_contra hne
  obtain ⟨s', hs'⟩ := Option.ne_none_iff_exists'.mp hne
  rw [someStep, dif_pos ⟨l, s', hs'⟩] at h
  cases h

/-- A run that ends, if it does, only where no step is enabled. -/
structure MaximalRun (T : System σ ℓ) (s : σ) where
  state : Nat → Option σ
  first : state 0 = some s
  step : ∀ k t', state (k + 1) = some t' → ∃ t l, state k = some t ∧ T.step t l = some t'
  last : ∀ k t, state k = some t → state (k + 1) = none → ∀ l, T.step t l = none

namespace MaximalRun

theorem nonempty (T : System σ ℓ) (s : σ) : Nonempty (T.MaximalRun s) := by
  refine ⟨⟨fun k => (fun t : Option σ => t.bind T.someStep)^[k] (some s), rfl, ?_, ?_⟩⟩
  · intro k t' h
    rw [Function.iterate_succ_apply'] at h
    obtain ⟨t, ht, hnext⟩ := Option.bind_eq_some_iff.mp h
    obtain ⟨l, hl⟩ := step_of_someStep hnext
    exact ⟨t, l, ht, hl⟩
  · intro k t hk h l
    rw [Function.iterate_succ_apply', hk] at h
    exact step_eq_none_of_someStep h l

variable {T : System σ ℓ} {s : σ}

theorem preserves (run : T.MaximalRun s) {P : σ → Prop}
    (hstep : ∀ s l s', P s → T.step s l = some s' → P s') (hs : P s) {k : Nat} {t : σ}
    (hk : run.state k = some t) : P t := by
  induction k generalizing t with
  | zero =>
      cases run.first.symm.trans hk
      exact hs
  | succ k ih =>
      obtain ⟨u, l, hu, hl⟩ := run.step k t hk
      exact hstep u l t (ih hu) hl

/-- What is met within finitely many steps whatever they are is met in every
maximal run. -/
theorem exists_of_within (run : T.MaximalRun s) {P : σ → Prop} {n k : Nat} {t : σ}
    (h : T.Within P n t) (hk : run.state k = some t) : ∃ j u, run.state j = some u ∧ P u := by
  induction h generalizing k with
  | now ht => exact ⟨k, _, hk, ht⟩
  | later henabled _ ih =>
      cases hnext : run.state (k + 1) with
      | none =>
          obtain ⟨l, t', hl⟩ := henabled
          rw [run.last k _ hk hnext l] at hl
          cases hl
      | some t' =>
          obtain ⟨u, l, hu, hl⟩ := run.step k t' hnext
          cases hk.symm.trans hu
          exact ih l t' hl hnext

end MaximalRun

end System

end Winasio.Transition
