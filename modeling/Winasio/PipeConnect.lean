import Winasio.NamedPipe

/-!
Who owns the handles when `named_pipe::connect` returns.
-/

namespace Winasio.PipeConnect

open Winasio.NamedPipe

/-- Either there is no error and the pipe is open on the one handle that was
opened, in message-read mode; or there is the error of the last call, the pipe
is closed, and so is every handle that was opened. -/
structure Accounted (handles : Handles) (script : List Reply) (c : Connection) : Prop where
  outcome :
    (c.ec.failed = false ∧ c.pipe = some handles.length ∧
        c.handles.length = handles.length + 1 ∧
        c.handles[handles.length]? = some { closed := false, messageRead := true }) ∨
      (∃ f, script.getLast?.bind Reply.error = some f ∧ c.ec = f.val ∧ c.pipe = none ∧
        ∀ h x, handles.length ≤ h → c.handles[h]? = some x → x.closed = true)

/-- If `CreateFile` opens a handle at last then the error variable was clear, and
the change to message-read mode does not fail. -/
def Clear (ec : ErrorCode) (script : List Reply) : Prop :=
  (.createFile none ∈ script → ec.failed = false) ∧
    ∀ f, .setNamedPipeHandleState (some f) ∉ script

inductive Returned (handles : Handles) (ec : ErrorCode) (script : List Reply) :
    Connection → Prop
  | opened : .createFile none ∈ script → (∀ f, .setNamedPipeHandleState (some f) ∉ script) →
      Returned handles ec script ⟨ec, some handles.length,
        (handles.opened false).setMessageRead handles.length⟩
  | modeFailed (f : Failure) : script.getLast? = some (.setNamedPipeHandleState (some f)) →
      Returned handles ec script ⟨f.val, none, handles.opened false⟩
  | failed (f : Failure) : script.getLast?.bind Reply.error = some f →
      .createFile none ∉ script → (∀ f, .setNamedPipeHandleState (some f) ∉ script) →
      Returned handles ec script ⟨f.val, none, handles⟩

/-- A round in which all pipe instances are busy changes nothing. -/
theorem Returned.busy {handles : Handles} {ec : ErrorCode} {script : List Reply}
    {c : Connection} (hne : script ≠ []) (h : Returned handles ec script c) (f : Failure) :
    Returned handles ec (.createFile (some f) :: .waitNamedPipe none :: script) c := by
  have hlast : (Reply.createFile (some f) :: .waitNamedPipe none :: script).getLast? =
      script.getLast? := by
    rw [List.getLast?_cons_of_ne_nil (List.cons_ne_nil _ _), List.getLast?_cons_of_ne_nil hne]
  cases h with
  | opened hmem hmode => exact .opened (by simp [hmem]) (by simpa using hmode)
  | modeFailed f hmode => exact .modeFailed f (hlast.trans hmode)
  | failed f herror hmem hmode =>
      refine .failed f ?_ (by simpa using hmem) (by simpa using hmode)
      rw [hlast, herror]

theorem returned_clientConnect {script : List Reply} {handles : Handles} {ec : ErrorCode}
    {c : Connection} (h : clientConnect script handles ec = some (c, [])) :
    Returned handles ec script c := by
  fun_induction clientConnect script handles ec with
  | case1 rest handles ec =>
      obtain ⟨rfl, rfl⟩ := Prod.mk.inj (Option.some.inj h)
      exact .opened (by simp) (by simp)
  | case2 f rest handles ec =>
      obtain ⟨rfl, rfl⟩ := Prod.mk.inj (Option.some.inj h)
      exact .modeFailed f rfl
  | case3 f rest handles ec hcode =>
      obtain ⟨rfl, rfl⟩ := Prod.mk.inj (Option.some.inj h)
      exact .failed f rfl (by simp) (by simp)
  | case4 f handles ec hcode rest ih =>
      refine (ih h).busy ?_ f
      rintro rfl
      cases h
  | case5 f handles ec hcode f' rest =>
      obtain ⟨rfl, rfl⟩ := Prod.mk.inj (Option.some.inj h)
      exact .failed f' rfl (by simp) (by simp)
  | case6 | case7 => cases h

theorem returned_connect {script : List Reply} {handles : Handles} {pipe : Option Handle}
    {ec : ErrorCode} {c : Connection} (h : connect script handles pipe ec = some (c, [])) :
    ∃ handles' c', handles'.length = handles.length ∧ Returned handles' ec script c' ∧
      c = if c'.ec.failed then { c' with pipe := none } else c' := by
  obtain ⟨⟨c', rest⟩, hc', hc⟩ := Option.map_eq_some_iff.mp h
  obtain ⟨rfl, rfl⟩ := Prod.mk.inj hc
  refine ⟨_, c', ?_, returned_clientConnect hc', rfl⟩
  cases pipe with
  | some hPipe => exact Handles.length_close handles hPipe
  | none => rfl

theorem getElem?_opened (handles : Handles) (messageRead : Bool) :
    (handles.opened messageRead)[handles.length]? = some { closed := false, messageRead } := by
  simp [Handles.opened]

theorem getElem?_setMessageRead_opened (handles : Handles) :
    ((handles.opened false).setMessageRead handles.length)[handles.length]? =
      some { closed := false, messageRead := true } := by
  simp [Handles.setMessageRead, Handles.opened]

theorem not_accounted {handles : Handles} {script : List Reply} {c : Connection}
    {x : PipeHandle} (hpipe : c.pipe = none) (hget : c.handles[handles.length]? = some x)
    (hopen : x.closed = false) : ¬ Accounted handles script c := by
  rintro ⟨⟨-, hsome, -⟩ | ⟨f, -, -, -, hclosed⟩⟩
  · cases hpipe.symm.trans hsome
  · cases hopen.symm.trans (hclosed handles.length x (Nat.le_refl _) hget)

/-- `connect` accounts for its outcome and for its handle exactly if it is called
with a clear error variable whenever it opens a handle, and the change of the
mode succeeds. -/
theorem accounted_iff {script : List Reply} {handles : Handles} {pipe : Option Handle}
    {ec : ErrorCode} {c : Connection} (h : connect script handles pipe ec = some (c, [])) :
    Accounted handles script c ↔ Clear ec script := by
  obtain ⟨handles', c', hlength, hreturned, rfl⟩ := returned_connect h
  cases hreturned with
  | opened hmem hmode =>
      have hget := getElem?_setMessageRead_opened handles'
      rw [hlength] at hget ⊢
      constructor
      · intro haccounted
        refine ⟨fun _ => ?_, hmode⟩
        by_contra hfailed
        rw [if_pos (by simpa using hfailed)] at haccounted
        exact not_accounted rfl hget rfl haccounted
      · rintro ⟨hclear, -⟩
        have hec := hclear hmem
        rw [if_neg (by simp [hec])]
        exact ⟨.inl ⟨hec, rfl, by simp [hlength], hget⟩⟩
  | modeFailed f hlast =>
      have hget := getElem?_opened handles' false
      rw [hlength] at hget
      rw [if_pos f.failed]
      constructor
      · exact fun haccounted => absurd haccounted (not_accounted rfl hget rfl)
      · exact fun hclear => absurd (List.mem_of_getLast? hlast) (hclear.2 f)
  | failed f herror hmem hmode =>
      rw [if_pos f.failed]
      refine iff_of_true ⟨.inr ⟨f, herror, rfl, rfl, ?_⟩⟩ ⟨fun h => absurd h hmem, hmode⟩
      intro i x hle hget
      change handles'[i]? = some x at hget
      rw [List.getElem?_eq_none (by omega)] at hget
      cases hget

/-- The server comes up for the second call, which gets the error variable of
the first one. -/
theorem accounted_iff_retry :
    ∃ c, connect [.createFile none, .setNamedPipeHandleState none] [] none ⟨2⟩ = some (c, []) ∧
      (Accounted [] [.createFile none, .setNamedPipeHandleState none] c ↔
        Clear ⟨2⟩ [.createFile none, .setNamedPipeHandleState none]) := by
  refine ⟨_, rfl, ?_⟩
  exact accounted_iff
    (show connect [.createFile none, .setNamedPipeHandleState none] [] none ⟨2⟩ = some (_, [])
      from rfl)

/-- The same call returns the old error, and its handle is in no pipe. -/
theorem not_accounted_retry :
    ∃ c, connect [.createFile none, .setNamedPipeHandleState none] [] none ⟨2⟩ = some (c, []) ∧
      c.ec = ⟨2⟩ ∧ c.pipe = none ∧ c.handles = [{ messageRead := true }] ∧
      ¬ Accounted [] [.createFile none, .setNamedPipeHandleState none] c :=
  ⟨_, rfl, rfl, rfl, rfl, not_accounted rfl rfl rfl⟩

end Winasio.PipeConnect
