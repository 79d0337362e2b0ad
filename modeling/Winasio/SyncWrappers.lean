import Mathlib.Logic.Function.Basic
import Winasio.Operation
import Winasio.WinhttpHandle

/-!
The synchronous wrappers of WinHTTP calls, on objects that share one
`error_code`: what it says after a wrapper, and what WinHTTP has answered to
the calls that the wrapper made.
-/

namespace Winasio.SyncWrappers

open Winasio.Transition
open Winasio.Operation
open Winasio.WinhttpHandle (HINTERNET)

/-- The callback that completes the asio operations of a request, or another. -/
inductive StatusCallback where
  | basicAsioAsyncCallback
  | other (id : Nat)
  deriving DecidableEq, Repr

structure RequestArgs extends OpenArgs where
  version : Option WString := none
  referrer : Option WString := none

inductive WinHttpCall where
  | openSession (agent : WString) (accessType : UInt32) (proxyName proxyBypass : Option WString)
      (flags : UInt32)
  | connect (hSession : Option HINTERNET) (url : WString) (port : UInt16)
  | openRequest (args : RequestArgs)
  | closeHandle (handle : HINTERNET)
  | setStatusCallback (handle : Option HINTERNET) (callback : Option StatusCallback)
      (flags : UInt32)
  | setOption (handle : Option HINTERNET) (option : UInt32) (buffer : Bytes)
  | addRequestHeaders (handle : Option HINTERNET) (headers : WString) (length : UInt32)
      (modifiers : UInt32)

/-- How WinHTTP answers the calls that a wrapper may make: the one that it wraps,
the closing of the handle that is replaced, and the registration of the callback
in `managed_open`. -/
structure Answers where
  error : Option Failure := none
  closeError : Option Failure := none
  callbackError : Option Failure := none
  deriving DecidableEq, Repr

/-- The objects by number, the error code they share, and the calls that the last
wrapper has made. WinHTTP numbers the handles in the order it returns them. -/
structure State where
  ec : ErrorCode := {}
  handle : Nat → Option HINTERNET := fun _ => none
  callback : HINTERNET → Option StatusCallback := fun _ => none
  obtained : Nat := 0
  made : List (WinHttpCall × Option Failure) := []

def flagAllCompletions : UInt32 := 0x017E0000

namespace State

def failures (s : State) : List Failure := s.made.filterMap Prod.snd

/-- A call of WinHTTP; the error code is only written where it fails. -/
def invoke (s : State) (call : WinHttpCall) (error : Option Failure) : State :=
  { s with made := s.made ++ [(call, error)], ec := error.elim s.ec Subtype.val }

/-- The error of `WinHttpCloseHandle` goes no further than an assertion. -/
def close (ndebug : Bool) (s : State) (self : Nat) (error : Option Failure) : Option State :=
  match s.handle self with
  | none => some s
  | some handle =>
      if error.isSome && !ndebug then none
      else some
        { s with
          handle := Function.update s.handle self none
          made := s.made ++ [(.closeHandle handle, error)] }

def assign (ndebug : Bool) (s : State) (self : Nat) (handle : HINTERNET)
    (closeError : Option Failure) : Option State :=
  (s.close ndebug self closeError).map fun s =>
    { s with handle := Function.update s.handle self (some handle) }

/-- What `open` and `connect` do with the handle that WinHTTP returns or fails to
return. -/
def openHandle (ndebug : Bool) (s : State) (self : Nat) (call : WinHttpCall)
    (answers : Answers) : Option State :=
  let s := s.invoke call answers.error
  if answers.error.isSome then some s
  else { s with obtained := s.obtained + 1 }.assign ndebug self s.obtained answers.closeError

def sessionOpen (ndebug : Bool) (s : State) (self : Nat) (agent : WString) (accessType : UInt32)
    (proxyName proxyBypass : Option WString) (flags : UInt32) (answers : Answers) :
    Option State :=
  s.openHandle ndebug self (.openSession agent accessType proxyName proxyBypass flags) answers

def connect (ndebug : Bool) (s : State) (self : Nat) (hSession : Option HINTERNET)
    (url : WString) (port : UInt16) (answers : Answers) : Option State :=
  s.openHandle ndebug self (.connect hSession url port) answers

def requestOpen (ndebug : Bool) (s : State) (self : Nat) (args : RequestArgs)
    (answers : Answers) : Option State :=
  s.openHandle ndebug self (.openRequest args) answers

/-- The state, and the previous callback unless the call fails. -/
def setStatusCallback (s : State) (self : Nat) (callback : Option StatusCallback)
    (flags : UInt32) (error : Option Failure) : State × Option (Option StatusCallback) :=
  let s' := s.invoke (.setStatusCallback (s.handle self) callback flags) error
  match error, s.handle self with
  | none, some handle =>
      ({ s' with callback := Function.update s.callback handle callback },
        some (s.callback handle))
  | none, none => (s', some none)
  | some _, _ => (s', none)

def setOption (s : State) (self : Nat) (option : UInt32) (buffer : Bytes)
    (error : Option Failure) : State :=
  s.invoke (.setOption (s.handle self) option buffer) error

def addHeaders (s : State) (self : Nat) (headers : WString) (length modifiers : UInt32)
    (error : Option Failure) : State :=
  s.invoke (.addRequestHeaders (s.handle self) headers length modifiers) error

def managedOpen (ndebug : Bool) (s : State) (self : Nat) (args : RequestArgs)
    (answers : Answers) : Option State :=
  (s.requestOpen ndebug self args answers).map fun s =>
    if s.ec.failed then s
    else (s.setStatusCallback self (some .basicAsioAsyncCallback) flagAllCompletions
      answers.callbackError).1

end State

inductive WrapperCall where
  | sessionOpen (agent : WString) (accessType : UInt32) (proxyName proxyBypass : Option WString)
      (flags : UInt32)
  | connect (hSession : Option HINTERNET) (url : WString) (port : UInt16)
  | requestOpen (args : RequestArgs)
  | managedOpen (args : RequestArgs)
  | setStatusCallback (callback : Option StatusCallback) (flags : UInt32)
  | setOption (option : UInt32) (buffer : Bytes)
  | addHeaders (headers : WString) (length modifiers : UInt32)

/-- A wrapper called on an object, with what WinHTTP answers. -/
structure Label where
  self : Nat
  call : WrapperCall
  answers : Answers := {}

def step (ndebug : Bool) (s : State) (l : Label) : Option State :=
  let s := { s with made := [] }
  match l.call with
  | .sessionOpen agent accessType proxyName proxyBypass flags =>
      s.sessionOpen ndebug l.self agent accessType proxyName proxyBypass flags l.answers
  | .connect hSession url port => s.connect ndebug l.self hSession url port l.answers
  | .requestOpen args => s.requestOpen ndebug l.self args l.answers
  | .managedOpen args => s.managedOpen ndebug l.self args l.answers
  | .setStatusCallback callback flags =>
      some (s.setStatusCallback l.self callback flags l.answers.error).1
  | .setOption option buffer => some (s.setOption l.self option buffer l.answers.error)
  | .addHeaders headers length modifiers =>
      some (s.addHeaders l.self headers length modifiers l.answers.error)

def system (ndebug : Bool) : System State Label := ⟨step ndebug⟩

/-- The error code is failed exactly if one of the calls has failed, and it is the
error of one that has. -/
structure Reported (ec : ErrorCode) (failures : List Failure) : Prop where
  failed_iff : ec.failed = true ↔ failures ≠ []
  value : ec.failed = true → ∃ f ∈ failures, ec = f.val

/-- The handle that was returned next is assigned, and the managed callback is
registered on it. -/
def Managed (s s' : State) (self : Nat) : Prop :=
  s'.handle self = some s.obtained ∧
    s'.callback s.obtained = some .basicAsioAsyncCallback

/-- What a wrapper call should do to the error code, and `managed_open` to the
request. -/
structure Exact (s : State) (l : Label) (s' : State) : Prop where
  reported : Reported s'.ec s'.failures
  managed : ∀ args, l.call = .managedOpen args →
    (s'.ec.failed = false ↔ Managed s s' l.self)
  complete : ∀ args, l.call = .managedOpen args →
    l.answers.error = none → l.answers.callbackError = none → Managed s s' l.self

/-- What the closing of the handle that an object has, if it has one, fails with. -/
def closeFailure (s : State) (l : Label) : Option Failure :=
  (s.handle l.self).bind fun _ => l.answers.closeError

/-- The call that is wrapped fails, or nothing that goes right leaves an error in
the error code: it was clear before, and no handle failed to be closed. -/
def Condition (s : State) (l : Label) : Prop :=
  match l.call with
  | .sessionOpen .. | .connect .. | .requestOpen .. =>
      l.answers.error ≠ none ∨ (closeFailure s l).elim (s.ec.failed = false) (s.ec = ·.val)
  | .managedOpen _ =>
      l.answers.error ≠ none ∨
      (s.ec.failed = false ∧ (l.answers.callbackError ≠ none ∨ closeFailure s l = none)) ∨
      (l.answers.callbackError ≠ none ∧ ∃ f, closeFailure s l = some f ∧ s.ec = f.val)
  | .setStatusCallback .. | .setOption .. | .addHeaders .. =>
      l.answers.error ≠ none ∨ s.ec.failed = false

@[simp] theorem ec_invoke (s : State) (call : WinHttpCall) (error : Option Failure) :
    (s.invoke call error).ec = error.elim s.ec Subtype.val := rfl

@[simp] theorem failures_invoke (s : State) (call : WinHttpCall) (error : Option Failure) :
    (s.invoke call error).failures = s.failures ++ error.toList := by
  cases error <;> simp [State.failures, State.invoke]

theorem reported_nil_iff {ec : ErrorCode} : Reported ec [] ↔ ec.failed = false := by
  constructor
  · intro h
    simpa using h.failed_iff
  · intro h
    exact ⟨by simp [h], by simp [h]⟩

theorem reported_of_mem {f : Failure} {failures : List Failure} (hf : f ∈ failures) :
    Reported f.val failures :=
  ⟨iff_of_true f.failed (List.ne_nil_of_mem hf), fun _ => ⟨f, hf, rfl⟩⟩

theorem reported_toList_iff {ec : ErrorCode} {error : Option Failure} :
    Reported ec error.toList ↔ error.elim (ec.failed = false) (ec = ·.val) := by
  cases error with
  | none => exact reported_nil_iff
  | some f =>
      constructor
      · intro h
        obtain ⟨g, hg, hec⟩ := h.value (h.failed_iff.mpr (by simp))
        rwa [List.mem_singleton.mp hg] at hec
      · rintro rfl
        exact reported_of_mem (by simp)

/-- A call that is reported by its own error code where it fails. -/
theorem reported_invoke_iff {ec : ErrorCode} {error : Option Failure} :
    Reported (error.elim ec Subtype.val) error.toList ↔ error ≠ none ∨ ec.failed = false := by
  cases error with
  | none => simp [reported_nil_iff]
  | some f => simp [reported_of_mem]

/-- What an `open` or `connect` that WinHTTP has returned a handle to leaves. -/
structure Opened (s s' : State) (i : Nat) (closeFailure : Option Failure) : Prop where
  ec : s'.ec = s.ec
  handle : s'.handle = Function.update s.handle i (some s.obtained)
  callback : s'.callback = s.callback
  obtained : s'.obtained = s.obtained + 1
  failures : s'.failures = s.failures ++ closeFailure.toList

theorem openHandle_of_error {ndebug : Bool} {s : State} {self : Nat} {call : WinHttpCall}
    {answers : Answers} {f : Failure} (herror : answers.error = some f) :
    s.openHandle ndebug self call answers = some (s.invoke call (some f)) := by
  simp [State.openHandle, herror]

theorem opened_of_openHandle {ndebug : Bool} {s s' : State} {self : Nat} {call : WinHttpCall}
    {answers : Answers} (herror : answers.error = none)
    (h : s.openHandle ndebug self call answers = some s') :
    Opened s s' self ((s.handle self).bind fun _ => answers.closeError) := by
  simp only [State.openHandle, herror, Option.isSome_none, Bool.false_eq_true, if_false,
    State.assign, State.close, State.invoke, Option.map_eq_some_iff] at h
  obtain ⟨t, ht, rfl⟩ := h
  cases hself : s.handle self with
  | none =>
      simp only [hself, Option.some.injEq] at ht
      subst ht
      exact ⟨rfl, rfl, rfl, rfl, by simp [State.failures]⟩
  | some handle =>
      simp only [hself, Option.ite_none_left_eq_some, Option.some.injEq] at ht
      obtain ⟨-, rfl⟩ := ht
      refine ⟨rfl, ?_, rfl, rfl, ?_⟩
      · simp
      · cases answers.closeError <;> simp [State.failures]

@[simp] theorem ec_setStatusCallback (s : State) (self : Nat)
    (callback : Option StatusCallback) (flags : UInt32) (error : Option Failure) :
    (s.setStatusCallback self callback flags error).1.ec = error.elim s.ec Subtype.val := by
  rw [State.setStatusCallback.eq_def]
  split <;> rfl

@[simp] theorem handle_setStatusCallback (s : State) (self : Nat)
    (callback : Option StatusCallback) (flags : UInt32) (error : Option Failure) :
    (s.setStatusCallback self callback flags error).1.handle = s.handle := by
  rw [State.setStatusCallback.eq_def]
  split <;> rfl

@[simp] theorem obtained_setStatusCallback (s : State) (self : Nat)
    (callback : Option StatusCallback) (flags : UInt32) (error : Option Failure) :
    (s.setStatusCallback self callback flags error).1.obtained = s.obtained := by
  rw [State.setStatusCallback.eq_def]
  split <;> rfl

@[simp] theorem failures_setStatusCallback (s : State) (self : Nat)
    (callback : Option StatusCallback) (flags : UInt32) (error : Option Failure) :
    (s.setStatusCallback self callback flags error).1.failures = s.failures ++ error.toList := by
  rw [← failures_invoke s (.setStatusCallback (s.handle self) callback flags)]
  rw [State.setStatusCallback.eq_def]
  split <;> rfl

theorem callback_setStatusCallback_of_error (s : State) (self : Nat)
    (callback : Option StatusCallback) (flags : UInt32) (f : Failure) :
    (s.setStatusCallback self callback flags (some f)).1.callback = s.callback := rfl

theorem callback_setStatusCallback_of_ok {s : State} {self : Nat} {handle : HINTERNET}
    (hself : s.handle self = some handle) (callback : Option StatusCallback) (flags : UInt32) :
    (s.setStatusCallback self callback flags none).1.callback =
      Function.update s.callback handle callback := by
  simp [State.setStatusCallback, hself]

/-- The handles of the objects, and those with a callback, were obtained. -/
structure Numbered (s : State) : Prop where
  handle_lt : ∀ i h, s.handle i = some h → h < s.obtained
  callback_of_le : ∀ h, s.obtained ≤ h → s.callback h = none

theorem Numbered.opened {s s' : State} {self : Nat} {closeFailure : Option Failure}
    (hs : Numbered s) (h : Opened s s' self closeFailure) : Numbered s' := by
  constructor
  · intro i handle hi
    rw [h.handle, Function.update_apply] at hi
    rw [h.obtained]
    split at hi
    · cases hi
      exact Nat.lt_succ_self s.obtained
    · exact Nat.lt_succ_of_lt (hs.handle_lt i handle hi)
  · intro handle hle
    rw [h.obtained] at hle
    rw [h.callback]
    exact hs.callback_of_le handle (Nat.le_of_succ_le hle)

theorem Numbered.openHandle {ndebug : Bool} {s s' : State} {self : Nat} {call : WinHttpCall}
    {answers : Answers} (hs : Numbered s)
    (h : s.openHandle ndebug self call answers = some s') : Numbered s' := by
  cases herror : answers.error with
  | none => exact hs.opened (opened_of_openHandle herror h)
  | some f =>
      rw [openHandle_of_error herror] at h
      cases h
      exact ⟨hs.handle_lt, hs.callback_of_le⟩

theorem Numbered.setStatusCallback {s : State} (hs : Numbered s) (self : Nat)
    (callback : Option StatusCallback) (flags : UInt32) (error : Option Failure) :
    Numbered (s.setStatusCallback self callback flags error).1 := by
  constructor
  · rw [handle_setStatusCallback, obtained_setStatusCallback]
    exact hs.handle_lt
  · intro h hle
    rw [obtained_setStatusCallback] at hle
    rw [State.setStatusCallback.eq_def]
    split
    · next handle hself =>
        have hlt := Nat.lt_of_lt_of_le (hs.handle_lt self handle hself) hle
        exact (Function.update_of_ne (Nat.ne_of_gt hlt) _ _).trans (hs.callback_of_le h hle)
    · exact hs.callback_of_le h hle
    · exact hs.callback_of_le h hle

theorem Numbered.step {ndebug : Bool} {s s' : State} {l : Label} (hs : Numbered s)
    (h : step ndebug s l = some s') : Numbered s' := by
  have hs : Numbered { s with made := [] } := ⟨hs.handle_lt, hs.callback_of_le⟩
  obtain ⟨self, call, answers⟩ := l
  cases call with
  | sessionOpen => exact hs.openHandle h
  | connect => exact hs.openHandle h
  | requestOpen => exact hs.openHandle h
  | managedOpen args =>
      obtain ⟨t, ht, rfl⟩ := Option.map_eq_some_iff.mp h
      have ht := hs.openHandle ht
      split
      · exact ht
      · exact ht.setStatusCallback _ _ _ _
  | setStatusCallback callback flags =>
      cases h
      exact hs.setStatusCallback _ _ _ _
  | setOption =>
      cases h
      exact ⟨hs.handle_lt, hs.callback_of_le⟩
  | addHeaders =>
      cases h
      exact ⟨hs.handle_lt, hs.callback_of_le⟩

theorem reported_openHandle_iff {ndebug : Bool} {s s' : State} {self : Nat} {call : WinHttpCall}
    {answers : Answers} (hmade : s.made = [])
    (h : s.openHandle ndebug self call answers = some s') :
    Reported s'.ec s'.failures ↔ answers.error ≠ none ∨
      ((s.handle self).bind fun _ => answers.closeError).elim (s.ec.failed = false)
        (s.ec = ·.val) := by
  have hfailures : s.failures = [] := by
    rw [State.failures, hmade]
    rfl
  cases herror : answers.error with
  | none =>
      have hopened := opened_of_openHandle herror h
      rw [hopened.ec, hopened.failures, hfailures, List.nil_append, reported_toList_iff]
      simp
  | some f =>
      rw [openHandle_of_error herror] at h
      cases h
      simp [hfailures, reported_of_mem]

theorem exact_iff_reported {s s' : State} {l : Label}
    (hl : ∀ args, l.call ≠ .managedOpen args) : Exact s l s' ↔ Reported s'.ec s'.failures := by
  constructor
  · intro h
    exact h.reported
  · intro h
    exact ⟨h, fun args hargs => absurd hargs (hl args),
      fun args hargs => absurd hargs (hl args)⟩

/-- A request on which no callback was registered is not managed. -/
theorem not_managed_of_callback {s s' : State} (hs : Numbered s)
    (hcallback : s'.callback = s.callback) (self : Nat) : ¬ Managed s s' self := by
  rintro ⟨-, hregistered⟩
  rw [hcallback, hs.callback_of_le s.obtained (Nat.le_refl _)] at hregistered
  cases hregistered

section ManagedOpen

variable {ndebug : Bool} {s s' : State} {self : Nat} {args : RequestArgs} {answers : Answers}

/-- Where WinHTTP returns no request, it is the error of that. -/
theorem exact_managedOpen_of_error (hs : Numbered s) {f : Failure}
    (herror : answers.error = some f)
    (h : step ndebug s ⟨self, .managedOpen args, answers⟩ = some s') :
    Exact s ⟨self, .managedOpen args, answers⟩ s' := by
  obtain ⟨t, ht, rfl⟩ := Option.map_eq_some_iff.mp h
  rw [State.requestOpen, openHandle_of_error herror] at ht
  cases ht
  rw [if_pos (by exact f.failed)]
  refine ⟨?_, fun _ _ => ?_, fun _ _ hnone => absurd (herror.symm.trans hnone) nofun⟩
  · exact reported_of_mem (by simp [State.failures, State.invoke])
  · exact iff_of_false (by simp [ec_invoke]) (not_managed_of_callback hs rfl self)

/-- With an error left over, the request is opened and no callback registered. -/
theorem exact_managedOpen_iff_of_leftover (hs : Numbered s) (herror : answers.error = none)
    (hec : s.ec.failed = true)
    (h : step ndebug s ⟨self, .managedOpen args, answers⟩ = some s') :
    Exact s ⟨self, .managedOpen args, answers⟩ s' ↔ answers.callbackError ≠ none ∧
      ∃ f, closeFailure s ⟨self, .managedOpen args, answers⟩ = some f ∧ s.ec = f.val := by
  obtain ⟨t, ht, rfl⟩ := Option.map_eq_some_iff.mp h
  have hopened := opened_of_openHandle herror ht
  have htec : t.ec.failed = true := by
    rw [hopened.ec]
    exact hec
  have hmanaged : ¬ Managed s t self := not_managed_of_callback hs hopened.callback self
  have hfailures : t.failures =
      (closeFailure s ⟨self, .managedOpen args, answers⟩).toList := hopened.failures
  rw [if_pos htec]
  constructor
  · intro hexact
    refine ⟨fun hnone => hmanaged (hexact.complete args rfl herror hnone), ?_⟩
    obtain ⟨f, hf, hec'⟩ := hexact.reported.value htec
    rw [hfailures, Option.mem_toList] at hf
    exact ⟨f, hf, hopened.ec.symm.trans hec'⟩
  · rintro ⟨hcallback, f, hf, hec'⟩
    refine ⟨?_, fun _ _ => ?_, fun _ _ _ hnone => absurd hnone hcallback⟩
    · have hmem : f ∈ t.failures := by
        rw [hfailures, hf]
        exact List.mem_singleton_self f
      rw [hopened.ec.trans hec']
      exact reported_of_mem hmem
    · exact iff_of_false (by simp [htec]) hmanaged

/-- From a clear error code, the callback is registered on the new request. -/
theorem exact_managedOpen_iff_of_clear (hs : Numbered s) (herror : answers.error = none)
    (hec : s.ec.failed = false)
    (h : step ndebug s ⟨self, .managedOpen args, answers⟩ = some s') :
    Exact s ⟨self, .managedOpen args, answers⟩ s' ↔ answers.callbackError ≠ none ∨
      closeFailure s ⟨self, .managedOpen args, answers⟩ = none := by
  obtain ⟨t, ht, rfl⟩ := Option.map_eq_some_iff.mp h
  have hopened := opened_of_openHandle herror ht
  have htec : t.ec.failed = false := by
    rw [hopened.ec]
    exact hec
  have hself : t.handle self = some s.obtained := by
    rw [hopened.handle]
    exact Function.update_self ..
  have hfailures : t.failures =
      (closeFailure s ⟨self, .managedOpen args, answers⟩).toList := hopened.failures
  rw [if_neg (by simp [htec])]
  cases hcallback : answers.callbackError with
  | some f =>
      refine iff_of_true ⟨?_, fun _ _ => ?_, fun _ _ _ hnone => ?_⟩ (.inl nofun)
      · rw [ec_setStatusCallback, failures_setStatusCallback]
        exact reported_of_mem (by simp)
      · rw [ec_setStatusCallback]
        refine iff_of_false (by simp) (not_managed_of_callback hs ?_ self)
        exact (callback_setStatusCallback_of_error ..).trans hopened.callback
      · exact absurd (hcallback.symm.trans hnone) nofun
  | none =>
      have hmanaged : Managed s (t.setStatusCallback self (some .basicAsioAsyncCallback)
          flagAllCompletions none).1 self := by
        rw [Managed, handle_setStatusCallback, callback_setStatusCallback_of_ok hself]
        exact ⟨hself, Function.update_self ..⟩
      constructor
      · intro hexact
        have hreported := hexact.reported
        rw [ec_setStatusCallback, failures_setStatusCallback, hfailures] at hreported
        have hnil := mt hreported.failed_iff.mpr (by simp [htec])
        exact .inr (by simpa using hnil)
      · rintro (hnone | hclose)
        · exact absurd rfl hnone
        · refine ⟨?_, fun _ _ => ?_, fun _ _ _ _ => hmanaged⟩
          · rw [ec_setStatusCallback, failures_setStatusCallback, hfailures, hclose]
            exact reported_nil_iff.mpr htec
          · rw [ec_setStatusCallback]
            exact iff_of_true htec hmanaged

theorem exact_managedOpen_iff (hs : Numbered s)
    (h : step ndebug s ⟨self, .managedOpen args, answers⟩ = some s') :
    Exact s ⟨self, .managedOpen args, answers⟩ s' ↔
      Condition s ⟨self, .managedOpen args, answers⟩ := by
  simp only [Condition]
  cases herror : answers.error with
  | some f => exact iff_of_true (exact_managedOpen_of_error hs herror h) (.inl nofun)
  | none =>
      rcases Bool.eq_false_or_eq_true s.ec.failed with hec | hec
      · rw [exact_managedOpen_iff_of_leftover hs herror hec h]
        simp [hec]
      · rw [exact_managedOpen_iff_of_clear hs herror hec h]
        constructor
        · intro hcase
          exact .inr (.inl ⟨hec, hcase⟩)
        · rintro (hnone | ⟨-, hcase⟩ | ⟨hcallback, -⟩)
          · exact absurd rfl hnone
          · exact hcase
          · exact .inl hcallback

end ManagedOpen

theorem exact_iff_condition_of_step {ndebug : Bool} {s s' : State} {l : Label}
    (hs : Numbered s) (h : step ndebug s l = some s') : Exact s l s' ↔ Condition s l := by
  obtain ⟨self, call, answers⟩ := l
  cases call with
  | managedOpen args => exact exact_managedOpen_iff hs h
  | sessionOpen =>
      rw [exact_iff_reported (by simp)]
      exact reported_openHandle_iff (s := { s with made := [] }) rfl h
  | connect =>
      rw [exact_iff_reported (by simp)]
      exact reported_openHandle_iff (s := { s with made := [] }) rfl h
  | requestOpen =>
      rw [exact_iff_reported (by simp)]
      exact reported_openHandle_iff (s := { s with made := [] }) rfl h
  | setStatusCallback =>
      rw [exact_iff_reported (by simp)]
      cases h
      rw [ec_setStatusCallback, failures_setStatusCallback]
      exact reported_invoke_iff
  | setOption =>
      rw [exact_iff_reported (by simp)]
      cases h
      rw [State.setOption, failures_invoke, ec_invoke]
      exact reported_invoke_iff
  | addHeaders =>
      rw [exact_iff_reported (by simp)]
      cases h
      rw [State.addHeaders, failures_invoke, ec_invoke]
      exact reported_invoke_iff

theorem numbered_init (ec : ErrorCode) : Numbered { ec } := by
  constructor
  · intro i h hi
    cases hi
  · intro h _
    rfl

/-- In any sequence of wrappers, from any value of the error code, all calls are
exact exactly if the condition holds before each of them. -/
theorem exact_iff_condition (ndebug : Bool) (ec : ErrorCode) (calls : List Label) :
    (system ndebug).AllSteps (fun s l => ∀ s', (system ndebug).step s l = some s' → Exact s l s')
        { ec } calls ↔
      (system ndebug).AllSteps Condition { ec } calls := by
  apply System.allSteps_congr (I := Numbered) _ _ (numbered_init ec)
  · exact fun s l s' hs h => hs.step h
  · intro s l s' hs h
    rw [← exact_iff_condition_of_step hs h]
    constructor
    · exact fun hexact => hexact s' h
    · intro hexact t ht
      cases h.symm.trans ht
      exact hexact

def getArgs : RequestArgs where
  connect := 0
  verb := [71, 69, 84]
  objectName := none
  acceptTypes := none
  flags := 0

/-- WinHTTP accepts both calls, but with an error left over, only one is made. -/
theorem not_exact_of_leftover :
    ¬ (system false).AllSteps (fun s l => ∀ s', (system false).step s l = some s' → Exact s l s')
      { ec := ⟨12029⟩ } [⟨0, .managedOpen getArgs, {}⟩] := by
  intro h
  have hexact := (h _ rfl).1 _ rfl
  have hcallback := (hexact.complete _ rfl rfl rfl).2
  cases hcallback

theorem openHandle_outcome {ndebug : Bool} {s s' : State} {self : Nat} {call : WinHttpCall}
    {answers : Answers} (h : s.openHandle ndebug self call answers = some s') :
    s'.ec = answers.error.elim s.ec Subtype.val ∧
    s'.handle self = answers.error.elim (some s.obtained) fun _ => s.handle self := by
  cases herror : answers.error with
  | some f =>
      rw [openHandle_of_error herror] at h
      cases h
      exact ⟨rfl, rfl⟩
  | none =>
      have hopened := opened_of_openHandle herror h
      refine ⟨hopened.ec, ?_⟩
      rw [hopened.handle]
      exact Function.update_self ..

/-- The handle and the error code after `open` and `connect`, as their objects
have them. -/
theorem openHandle_eq_openSession {ndebug : Bool} {s s' : State} {self : Nat}
    {call : WinHttpCall} {answers : Answers}
    (h : s.openHandle ndebug self call answers = some s') {o : WinhttpHandle.Object}
    (ho : o.handle = s.handle self) (closed : List HINTERNET) :
    s'.ec = (o.openSession (answers.error.elim (.ok s.obtained) .error) s.ec closed).1 ∧
    s'.handle self =
      (o.openSession (answers.error.elim (.ok s.obtained) .error) s.ec closed).2.1.handle := by
  rw [(openHandle_outcome h).1, (openHandle_outcome h).2]
  cases answers.error with
  | some f => exact ⟨rfl, ho.symm⟩
  | none => exact ⟨rfl, rfl⟩

theorem openHandle_eq_openRequest {ndebug : Bool} {s s' : State} {self : Nat}
    {args : RequestArgs} {answers : Answers} (h : s.requestOpen ndebug self args answers = some s')
    {w : World} (hw : w.handle = s.handle self) :
    s'.ec = (w.openRequest args.toOpenArgs (answers.error.elim (.ok s.obtained) .error) s.ec).2 ∧
    s'.handle self =
      (w.openRequest args.toOpenArgs (answers.error.elim (.ok s.obtained) .error)
        s.ec).1.handle := by
  rw [(openHandle_outcome h).1, (openHandle_outcome h).2]
  cases answers.error with
  | some f => exact ⟨rfl, hw.symm⟩
  | none => exact ⟨rfl, rfl⟩

/-- `managed_open` does to the handle and to the error code what the operations
on a request assume of it. -/
theorem managedOpen_eq_world {ndebug : Bool} {s s' : State} {self : Nat} {args : RequestArgs}
    {answers : Answers} (h : s.managedOpen ndebug self args answers = some s') {w : World}
    (hw : w.handle = s.handle self) {sync : SyncOutcomes}
    (hopen : sync.openRequest = answers.error.elim (.ok s.obtained) .error)
    (hcallback : sync.setStatusCallback = answers.callbackError) :
    s'.ec = (w.managedOpen args.toOpenArgs sync s.ec).2 ∧
    s'.handle self = (w.managedOpen args.toOpenArgs sync s.ec).1.handle := by
  obtain ⟨t, ht, rfl⟩ := Option.map_eq_some_iff.mp h
  obtain ⟨hec, hhandle⟩ := openHandle_eq_openRequest ht hw
  simp only [World.managedOpen, hopen, hcallback, ← hec]
  split
  · exact ⟨rfl, hhandle⟩
  · simp [World.setStatusCallback, World.issue, hhandle]

end Winasio.SyncWrappers
