import Winasio.AcceptLoop
import Winasio.PipeAcceptor

/-!
The accept loop of `server_movable`: `async_accept` with a handler that is
given the pipe, moves it into a session or lets it go, and accepts again. It
survives failed connects, and otherwise does what the loop of `server` does.
-/

namespace Winasio.MovableLoop

open Winasio.Transition
open Winasio.NamedPipe
open Winasio.AcceptLoop (Label)

/-- The acceptor and the loop. `dropping` are the pipes without a client that
the handlers on the stack were given; they are closed where those return. -/
structure State where
  acceptor : PipeAcceptor.State := {}
  sessions : List Handle := []
  dropping : List Handle := []
  calling : Bool := true
  deriving DecidableEq, Repr

namespace State

/-- The handler in `do_accept`, up to its call of `do_accept`. -/
def handler (s : State) (r : PipeAcceptor.Report) : State :=
  let s := if r.ec.failed then { s with dropping := s.dropping ++ r.pipe.toList }
    else { s with sessions := s.sessions ++ r.pipe.toList }
  { s with calling := true }

def returned (s : State) : State :=
  { s with
    acceptor := { s.acceptor with
      handles := s.dropping.foldl Handles.close s.acceptor.handles }
    dropping := [] }

/-- The acceptor has moved on, and has invoked a handler or not. -/
def moved (s : State) (acceptor : PipeAcceptor.State) : State :=
  (acceptor.reported.drop s.acceptor.reported.length).foldl handler { s with acceptor }

/-- The handler of a failed `server_create` runs inside of the call, and calls
`do_accept` in turn; otherwise the call and the handlers return. -/
def asyncAccept (s : State) (error : Option Failure) (fConnected : Bool) (lastError : UInt32) :
    State :=
  let s := { s with calling := false }.moved (s.acceptor.asyncAccept error fConnected lastError)
  if s.calling then s else s.returned

end State

def step (s : State) (l : Label) : Option State :=
  if s.acceptor.threw then none
  else
    match l with
    | .accept error fConnected lastError =>
        if s.calling then some (s.asyncAccept error fConnected lastError) else none
    | .complete id error =>
        (PipeAcceptor.step s.acceptor (.complete id error)).map s.moved
    | .run id =>
        if s.calling then none else (PipeAcceptor.step s.acceptor (.run id)).map s.moved

def system : System State Label := ⟨step⟩

def start : State := {}

/-- An accept is about to be called, or exactly one is outstanding, with its
own instance in the pipe of the acceptor. -/
inductive Phase (s : State) : Prop
  | calling : s.calling = true → s.acceptor.waiting = [] → s.acceptor.pipe = none → Phase s
  | connecting (a : PipeAcceptor.Accept) : s.calling = false → s.acceptor.waiting = [a] →
      s.acceptor.pipe = some a.own → s.dropping = [] → Phase s

/-- The instances in the pipe of the acceptor, with the sessions, and with the
handlers that are about to let them go. -/
def held (s : State) : List Handle := s.acceptor.pipe.toList ++ (s.sessions ++ s.dropping)

/-- The loop goes on, every handler runs once, every connected client has a
session on the instance of its own accept, and an instance is open exactly
while one of its owners has it. -/
structure Sound (s : State) : Prop where
  threw : s.acceptor.threw = false
  phase : Phase s
  once : (PipeAcceptor.ids s.acceptor).Perm (List.range s.acceptor.accepts)
  sessions : s.sessions =
    (s.acceptor.reported.filter fun r => !r.ec.failed).flatMap fun r => r.own.toList
  distinct : (held s).Nodup
  isOpen : ∀ h x, s.acceptor.handles[h]? = some x → (x.closed = false ↔ h ∈ held s)
  held_lt : ∀ h ∈ held s, h < s.acceptor.handles.length

inductive Stepped (s : State) : Label → State → Prop
  | refused (f : Failure) (fConnected : Bool) (lastError : UInt32) :
      s.calling = true → s.acceptor.waiting = [] → s.acceptor.pipe = none →
      Stepped s (.accept (some f) fConnected lastError)
        { s with
          acceptor := { s.acceptor with
            accepts := s.acceptor.accepts + 1
            reported := s.acceptor.reported ++ [⟨s.acceptor.accepts, none, f.val, none⟩] } }
  | assigned (fConnected : Bool) (lastError : UInt32) :
      s.calling = true → s.acceptor.waiting = [] → s.acceptor.pipe = none →
      Stepped s (.accept none fConnected lastError)
        { s with
          acceptor := { s.acceptor with
            handles := s.dropping.foldl Handles.close (s.acceptor.handles.opened true)
            pipe := some s.acceptor.handles.length
            waiting := [⟨s.acceptor.accepts, s.acceptor.handles.length,
              posted (asyncServerConnect fConnected lastError)⟩]
            accepts := s.acceptor.accepts + 1 }
          dropping := []
          calling := false }
  | completed (id : Nat) (error : Option Failure) (own : Handle) :
      s.calling = false → s.acceptor.waiting = [⟨id, own, none⟩] →
      s.acceptor.pipe = some own → s.dropping = [] →
      Stepped s (.complete id error)
        { s with
          acceptor := { s.acceptor with waiting := [⟨id, own, some (completion error)⟩] } }
  | connected (id : Nat) (own : Handle) (ec : ErrorCode) :
      s.acceptor.waiting = [⟨id, own, some ec⟩] → s.acceptor.pipe = some own →
      s.dropping = [] → ec.failed = false →
      Stepped s (.run id)
        { s with
          acceptor := { s.acceptor with
            pipe := none
            waiting := []
            reported := s.acceptor.reported ++ [⟨id, some own, ec, some own⟩] }
          sessions := s.sessions ++ [own]
          calling := true }
  | failed (id : Nat) (own : Handle) (ec : ErrorCode) :
      s.acceptor.waiting = [⟨id, own, some ec⟩] → s.acceptor.pipe = some own →
      s.dropping = [] → ec.failed = true →
      Stepped s (.run id)
        { s with
          acceptor := { s.acceptor with
            pipe := none
            waiting := []
            reported := s.acceptor.reported ++ [⟨id, some own, ec, some own⟩] }
          dropping := [own]
          calling := true }

theorem Phase.of_calling {s : State} (h : Phase s) (hcalling : s.calling = true) :
    s.acceptor.waiting = [] ∧ s.acceptor.pipe = none := by
  cases h with
  | calling _ hwaiting hpipe => exact ⟨hwaiting, hpipe⟩
  | connecting a hcalling' => cases hcalling.symm.trans hcalling'

theorem Phase.of_find? {s : State} (h : Phase s) {id : Nat} {a : PipeAcceptor.Accept}
    (ha : s.acceptor.waiting.find? (·.id = id) = some a) :
    s.calling = false ∧ s.acceptor.waiting = [a] ∧ s.acceptor.pipe = some a.own ∧
      s.dropping = [] ∧ s.acceptor.waiting.eraseP (·.id = id) = [] := by
  have hid := PipeAcceptor.id_of_find? ha
  have hmem := List.mem_of_find?_eq_some ha
  cases h with
  | calling _ hwaiting =>
      rw [hwaiting] at hmem
      cases hmem
  | connecting a' hcalling hwaiting hpipe hdropping =>
      rw [hwaiting] at hmem
      obtain rfl := List.mem_singleton.mp hmem
      exact ⟨hcalling, hwaiting, hpipe, hdropping, by simp [hwaiting, hid]⟩

theorem moved_eq {s : State} {acceptor : PipeAcceptor.State}
    (h : acceptor.reported = s.acceptor.reported) : s.moved acceptor = { s with acceptor } := by
  rw [State.moved, h, List.drop_length, List.foldl_nil]

theorem moved_concat {s : State} {acceptor : PipeAcceptor.State} {r : PipeAcceptor.Report}
    (h : acceptor.reported = s.acceptor.reported ++ [r]) :
    s.moved acceptor = { s with acceptor }.handler r := by
  rw [State.moved, h, List.drop_left, List.foldl_cons, List.foldl_nil]

theorem acceptor_refused {a : PipeAcceptor.State} (hpipe : a.pipe = none) (f : Failure)
    (fConnected : Bool) (lastError : UInt32) :
    a.asyncAccept (some f) fConnected lastError =
      { a with
        accepts := a.accepts + 1
        reported := a.reported ++ [⟨a.accepts, none, f.val, none⟩] } := by
  obtain ⟨handles, pipe, waiting, accepts, reported, threw⟩ := a
  cases hpipe
  rfl

theorem acceptor_assigned {a : PipeAcceptor.State} (hpipe : a.pipe = none) (fConnected : Bool)
    (lastError : UInt32) :
    a.asyncAccept none fConnected lastError =
      { a with
        handles := a.handles.opened true
        pipe := some a.handles.length
        waiting := a.waiting ++ [⟨a.accepts, a.handles.length,
          posted (asyncServerConnect fConnected lastError)⟩]
        accepts := a.accepts + 1 } := by
  obtain ⟨handles, pipe, waiting, accepts, reported, threw⟩ := a
  cases hpipe
  rfl

theorem asyncAccept_refused {s : State} (hcalling : s.calling = true)
    (hpipe : s.acceptor.pipe = none) (f : Failure) (fConnected : Bool) (lastError : UInt32) :
    s.asyncAccept (some f) fConnected lastError =
      { s with
        acceptor := { s.acceptor with
          accepts := s.acceptor.accepts + 1
          reported := s.acceptor.reported ++ [⟨s.acceptor.accepts, none, f.val, none⟩] } } := by
  rw [State.asyncAccept, acceptor_refused hpipe, moved_concat rfl]
  simp [State.handler, f.failed, hcalling]

theorem asyncAccept_assigned {s : State} (hwaiting : s.acceptor.waiting = [])
    (hpipe : s.acceptor.pipe = none) (fConnected : Bool) (lastError : UInt32) :
    s.asyncAccept none fConnected lastError =
      { s with
        acceptor := { s.acceptor with
          handles := s.dropping.foldl Handles.close (s.acceptor.handles.opened true)
          pipe := some s.acceptor.handles.length
          waiting := [⟨s.acceptor.accepts, s.acceptor.handles.length,
            posted (asyncServerConnect fConnected lastError)⟩]
          accepts := s.acceptor.accepts + 1 }
        dropping := []
        calling := false } := by
  rw [State.asyncAccept, acceptor_assigned hpipe, moved_eq, hwaiting]
  · simp [State.returned]
  · rfl

theorem stepped_of_step {s s' : State} {l : Label} (hs : Sound s) (h : step s l = some s') :
    Stepped s l s' := by
  obtain ⟨-, h⟩ := Option.ite_none_left_eq_some.mp h
  cases l with
  | accept error fConnected lastError =>
      obtain ⟨hcalling, h⟩ := Option.ite_none_right_eq_some.mp h
      obtain ⟨hwaiting, hpipe⟩ := hs.phase.of_calling hcalling
      rw [← Option.some.inj h]
      cases error with
      | some f =>
          rw [asyncAccept_refused hcalling hpipe]
          exact .refused f fConnected lastError hcalling hwaiting hpipe
      | none =>
          rw [asyncAccept_assigned hwaiting hpipe]
          exact .assigned fConnected lastError hcalling hwaiting hpipe
  | complete id error =>
      obtain ⟨acceptor, hacceptor, rfl⟩ := Option.map_eq_some_iff.mp h
      cases PipeAcceptor.stepped_of_step hacceptor with
      | completed error id own hfind =>
          obtain ⟨hcalling, hwaiting, hpipe, hdropping, hrest⟩ := hs.phase.of_find? hfind
          rw [moved_eq, hrest]
          · exact .completed id error own hcalling hwaiting hpipe hdropping
          · rfl
  | run id =>
      obtain ⟨-, h⟩ := Option.ite_none_left_eq_some.mp h
      obtain ⟨acceptor, hacceptor, rfl⟩ := Option.map_eq_some_iff.mp h
      cases PipeAcceptor.stepped_of_step hacceptor with
      | handled id own ec hfind =>
          obtain ⟨-, hwaiting, hpipe, hdropping, hrest⟩ := hs.phase.of_find? hfind
          rw [moved_concat rfl, hrest, hpipe]
          cases hec : ec.failed with
          | false =>
              simp only [State.handler, hec, Bool.false_eq_true, if_false, Option.toList_some]
              exact .connected id own ec hwaiting hpipe hdropping hec
          | true =>
              simp only [State.handler, hec, if_true, Option.toList_some, hdropping,
                List.nil_append]
              exact .failed id own ec hwaiting hpipe hdropping hec

theorem getElem?_foldl_close (dropping : List Handle) (handles : Handles) (h : Handle) :
    (dropping.foldl Handles.close handles)[h]? =
      handles[h]?.map fun x => if h ∈ dropping then { x with closed := true } else x := by
  induction dropping generalizing handles with
  | nil => simp
  | cons d dropping ih =>
      rw [List.foldl_cons, ih, Handles.close, List.getElem?_modify]
      by_cases hd : d = h
      · subst hd
        cases handles[d]? <;> simp
      · have hd' : h ≠ d := fun heq => hd heq.symm
        cases handles[h]? <;> simp [hd, hd']

theorem length_foldl_close (dropping : List Handle) (handles : Handles) :
    (dropping.foldl Handles.close handles).length = handles.length := by
  induction dropping generalizing handles with
  | nil => rfl
  | cons d dropping ih => rw [List.foldl_cons, ih, Handles.length_close]

theorem getElem?_opened_self (handles : Handles) :
    (handles.opened true)[handles.length]? = some { messageRead := true } := by
  rw [Handles.opened, List.concat_eq_append, List.getElem?_concat_length]

/-- The instances have other owners, and that is all that happens to them. -/
theorem Sound.regrouped {s s' : State} (hs : Sound s)
    (hhandles : s'.acceptor.handles = s.acceptor.handles) (hheld : (held s').Perm (held s))
    (hthrew : s'.acceptor.threw = false) (hphase : Phase s')
    (honce : (PipeAcceptor.ids s'.acceptor).Perm (List.range s'.acceptor.accepts))
    (hsessions : s'.sessions =
      (s'.acceptor.reported.filter fun r => !r.ec.failed).flatMap fun r => r.own.toList) :
    Sound s' where
  threw := hthrew
  phase := hphase
  once := honce
  sessions := hsessions
  distinct := hheld.nodup_iff.mpr hs.distinct
  isOpen := by
    intro h x hx
    rw [hhandles] at hx
    rw [hs.isOpen h x hx, hheld.mem_iff]
  held_lt := by
    intro h hmem
    rw [hhandles]
    exact hs.held_lt h (hheld.mem_iff.mp hmem)

theorem ids_handled {s : PipeAcceptor.State} {id : Nat} {own : Handle} {ec : ErrorCode}
    {posted : Option ErrorCode} (hwaiting : s.waiting = [⟨id, own, posted⟩]) :
    (PipeAcceptor.ids { s with
      pipe := none
      waiting := []
      reported := s.reported ++ [⟨id, some own, ec, some own⟩] }).Perm (PipeAcceptor.ids s) := by
  simp only [PipeAcceptor.ids, hwaiting, List.map_append, List.map_cons, List.map_nil,
    List.nil_append]
  exact List.perm_append_comm

theorem Sound.assigned {s : State} (hs : Sound s) (fConnected : Bool) (lastError : UInt32)
    (hwaiting : s.acceptor.waiting = []) (hpipe : s.acceptor.pipe = none) :
    Sound
      { s with
        acceptor := { s.acceptor with
          handles := s.dropping.foldl Handles.close (s.acceptor.handles.opened true)
          pipe := some s.acceptor.handles.length
          waiting := [⟨s.acceptor.accepts, s.acceptor.handles.length,
            posted (asyncServerConnect fConnected lastError)⟩]
          accepts := s.acceptor.accepts + 1 }
        dropping := []
        calling := false } := by
  have hheld : held s = s.sessions ++ s.dropping := by rw [held, hpipe]; rfl
  have hlt : ∀ h ∈ s.sessions ++ s.dropping, h < s.acceptor.handles.length :=
    fun h hmem => hs.held_lt h (hheld ▸ hmem)
  have hnew : s.acceptor.handles.length ∉ s.sessions ++ s.dropping :=
    fun hmem => Nat.lt_irrefl _ (hlt _ hmem)
  have hdistinct := hs.distinct
  rw [hheld] at hdistinct
  obtain ⟨hsessions, -, hdisjoint⟩ := List.nodup_append.mp hdistinct
  have hheld' : ∀ h, h ∈ (some s.acceptor.handles.length).toList ++ (s.sessions ++ []) ↔
      h = s.acceptor.handles.length ∨ h ∈ s.sessions := fun h => by simp
  refine ⟨hs.threw, .connecting _ rfl rfl rfl rfl, ?_, hs.sessions, ?_, ?_, ?_⟩
  · refine EraseFirst.perm_range_succ hs.once ?_
    simp [PipeAcceptor.ids, hwaiting]
  · change (s.acceptor.handles.length :: (s.sessions ++ [])).Nodup
    rw [List.append_nil]
    exact List.nodup_cons.mpr ⟨fun hmem => hnew (List.mem_append_left _ hmem), hsessions⟩
  · intro h x hx
    refine Iff.trans ?_ (hheld' h).symm
    rw [getElem?_foldl_close] at hx
    obtain ⟨y, hy, rfl⟩ := Option.map_eq_some_iff.mp hx
    by_cases hself : h = s.acceptor.handles.length
    · subst hself
      cases (getElem?_opened_self _).symm.trans hy
      rw [if_neg fun hmem => hnew (List.mem_append_right _ hmem)]
      simp
    · rw [getElem?_opened_of_ne hself] at hy
      have hopen := hs.isOpen h y hy
      rw [hheld, List.mem_append] at hopen
      by_cases hdropping : h ∈ s.dropping
      · rw [if_pos hdropping]
        refine iff_of_false (by simp) fun hmem => ?_
        exact hdisjoint h (hmem.resolve_left hself) h hdropping rfl
      · rw [if_neg hdropping, hopen]
        simp [hdropping, hself]
  · intro h hmem
    change h < (s.dropping.foldl Handles.close (s.acceptor.handles.opened true)).length
    rw [length_foldl_close, Handles.length_opened]
    rcases (hheld' h).mp hmem with rfl | hmem
    · exact Nat.lt_succ_self _
    · exact Nat.lt_succ_of_lt (hlt h (List.mem_append_left _ hmem))

theorem Sound.step {s s' : State} {l : Label} (hs : Sound s)
    (h : MovableLoop.step s l = some s') : Sound s' := by
  cases stepped_of_step hs h with
  | refused f fConnected lastError hcalling hwaiting hpipe =>
      refine hs.regrouped rfl (.refl _) hs.threw (.calling hcalling hwaiting hpipe) ?_ ?_
      · refine EraseFirst.perm_range_succ hs.once ?_
        simp [PipeAcceptor.ids, hwaiting]
      · simpa [f.failed] using hs.sessions
  | assigned fConnected lastError hcalling hwaiting hpipe =>
      exact hs.assigned fConnected lastError hwaiting hpipe
  | completed id error own hcalling hwaiting hpipe hdropping =>
      refine hs.regrouped rfl (.refl _) hs.threw (.connecting _ hcalling rfl hpipe hdropping) ?_
        hs.sessions
      simpa [PipeAcceptor.ids, hwaiting] using hs.once
  | connected id own ec hwaiting hpipe hdropping hec =>
      refine hs.regrouped rfl ?_ hs.threw (.calling rfl rfl rfl)
        ((ids_handled hwaiting).trans hs.once) ?_
      · simp only [held, hpipe, hdropping, Option.toList_none, Option.toList_some,
          List.append_nil, List.nil_append]
        exact List.perm_append_comm
      · simp [hec, hs.sessions]
  | failed id own ec hwaiting hpipe hdropping hec =>
      refine hs.regrouped rfl ?_ hs.threw (.calling rfl rfl rfl)
        ((ids_handled hwaiting).trans hs.once) ?_
      · simp only [held, hpipe, hdropping, Option.toList_none, Option.toList_some,
          List.append_nil, List.nil_append]
        exact List.perm_append_comm
      · simpa [hec] using hs.sessions

theorem sound_start : Sound start := by
  refine ⟨rfl, .calling rfl rfl rfl, .nil, rfl, .nil, ?_, ?_⟩
  · intro h x hx
    cases hx
  · intro h hmem
    cases hmem

/-- The loop of `server_movable` survives whatever comes of its accepts. -/
theorem movableLoop_sound (labels : List Label) : system.AllStates Sound start labels :=
  System.AllStates.of_invariant (fun _ _ _ => Sound.step) (fun _ h => h) sound_start labels

/-- The loop as that of `server` has it. -/
def view (s : State) : AcceptLoop.State where
  handles := s.acceptor.handles
  pipe := s.acceptor.pipe
  waiting := s.acceptor.waiting.map fun a => (a.id, a.posted)
  accepts := s.acceptor.accepts
  reported := s.acceptor.reported.map fun r => (r.id, r.ec)
  sessions := s.sessions
  calling := s.calling
  threw := s.acceptor.threw

/-- No connect has failed so far. -/
structure Untroubled (s : State) : Prop where
  sound : Sound s
  dropping : s.dropping = []

theorem Untroubled.step {s s' : State} {l : Label} (hs : Untroubled s)
    (hl : AcceptLoop.NoConnectError (view s) l) (h : MovableLoop.step s l = some s') :
    Untroubled s' := by
  refine ⟨hs.sound.step h, ?_⟩
  cases stepped_of_step hs.sound h with
  | refused | completed | connected => exact hs.dropping
  | assigned => rfl
  | failed id own ec hwaiting hpipe hdropping hec =>
      have hmem : (id, some ec) ∈ (view s).waiting := by simp [view, hwaiting]
      cases hec.symm.trans (hl ec hmem)

theorem step_view_accept {s : State} (hs : Untroubled s) (hcalling : s.calling = true)
    (error : Option Failure) (fConnected : Bool) (lastError : UInt32) :
    AcceptLoop.step (view s) (.accept error fConnected lastError) =
      some (view (s.asyncAccept error fConnected lastError)) := by
  obtain ⟨hwaiting, hpipe⟩ := hs.sound.phase.of_calling hcalling
  have hthrew := hs.sound.threw
  cases error with
  | some f =>
      rw [asyncAccept_refused hcalling hpipe]
      simp [AcceptLoop.step, view, hthrew, hcalling, hpipe, AcceptLoop.State.asyncAccept,
        serverCreate, AcceptLoop.State.handler, f.failed]
  | none =>
      rw [asyncAccept_assigned hwaiting hpipe]
      simp [AcceptLoop.step, view, hthrew, hcalling, hpipe, AcceptLoop.State.asyncAccept,
        serverCreate, hwaiting, hs.dropping]

theorem step_view_complete {s : State} (hs : Untroubled s) (id : Nat) (error : Option Failure) :
    AcceptLoop.step (view s) (.complete id error) =
      (MovableLoop.step s (.complete id error)).map view := by
  have hthrew := hs.sound.threw
  cases hs.sound.phase with
  | calling hcalling hwaiting hpipe =>
      simp [AcceptLoop.step, MovableLoop.step, PipeAcceptor.step, view, hthrew, hwaiting]
  | connecting a hcalling hwaiting hpipe hdropping =>
      obtain ⟨id', own, posted⟩ := a
      by_cases hid : id' = id
      · subst hid
        cases posted with
        | none =>
            simp [AcceptLoop.step, MovableLoop.step, PipeAcceptor.step, view, hthrew, hwaiting,
              State.moved]
        | some ec =>
            simp [AcceptLoop.step, MovableLoop.step, PipeAcceptor.step, view, hthrew, hwaiting]
      · simp [AcceptLoop.step, MovableLoop.step, PipeAcceptor.step, view, hthrew, hwaiting, hid]

/-- The handler of `server` keeps a pipe that could not be connected. -/
theorem step_view_run {s : State} (hs : Untroubled s) (hcalling : s.calling = false) {id : Nat}
    {own : Handle} {ec : ErrorCode} (hwaiting : s.acceptor.waiting = [⟨id, own, some ec⟩])
    (hpipe : s.acceptor.pipe = some own) :
    ∃ s', MovableLoop.step s (.run id) = some s' ∧ (view s').pipe = none ∧
      AcceptLoop.step (view s) (.run id) =
        some { view s' with pipe := if ec.failed then some own else none } := by
  have hthrew := hs.sound.threw
  let r : PipeAcceptor.Report := ⟨id, some own, ec, some own⟩
  let acceptor : PipeAcceptor.State :=
    { s.acceptor with pipe := none, waiting := [], reported := s.acceptor.reported ++ [r] }
  have hacceptor : PipeAcceptor.step s.acceptor (.run id) = some acceptor := by
    simp [PipeAcceptor.step, PipeAcceptor.State.handler, hwaiting, hpipe, acceptor, r]
  have hstep : MovableLoop.step s (.run id) = some ({ s with acceptor }.handler r) := by
    rw [MovableLoop.step, if_neg (by simp [hthrew]), if_neg (by simp [hcalling]), hacceptor,
      Option.map_some, moved_concat rfl]
  refine ⟨_, hstep, ?_⟩
  cases hec : ec.failed with
  | false =>
      simp [AcceptLoop.step, AcceptLoop.State.handler, State.handler, view, hthrew, hcalling,
        hwaiting, hpipe, hec, acceptor, r]
  | true =>
      simp [AcceptLoop.step, AcceptLoop.State.handler, State.handler, view, hthrew, hcalling,
        hwaiting, hpipe, hec, acceptor, r]

/-- The two loops take the same step, unless a failed connect is reported. -/
theorem step_view_iff {s : State} (hs : Untroubled s) (l : Label) :
    AcceptLoop.step (view s) l = (MovableLoop.step s l).map view ↔
      ∀ s', MovableLoop.step s l = some s' → AcceptLoop.NoConnectError (view s) l := by
  have hthrew := hs.sound.threw
  cases l with
  | accept error fConnected lastError =>
      refine iff_of_true ?_ fun _ _ => trivial
      by_cases hcalling : s.calling = true
      · rw [step_view_accept hs hcalling]
        simp [MovableLoop.step, hthrew, hcalling]
      · simp [AcceptLoop.step, MovableLoop.step, view, hthrew, hcalling]
  | complete id error => exact iff_of_true (step_view_complete hs id error) fun _ _ => trivial
  | run id =>
      cases hs.sound.phase with
      | calling hcalling hwaiting hpipe =>
          simp [AcceptLoop.step, MovableLoop.step, view, hthrew, hcalling]
      | connecting a hcalling hwaiting hpipe hdropping =>
          obtain ⟨id', own, posted⟩ := a
          by_cases hid : id' = id
          · subst hid
            cases posted with
            | none =>
                simp [AcceptLoop.step, MovableLoop.step, PipeAcceptor.step, view, hthrew, hcalling,
                  hwaiting]
            | some ec =>
                obtain ⟨s', hstep, hnone, hview⟩ := step_view_run hs hcalling hwaiting hpipe
                have hmem : (id', some ec) ∈ (view s).waiting := by simp [view, hwaiting]
                rw [hview, hstep, Option.map_some]
                cases hec : ec.failed with
                | false =>
                    refine iff_of_true ?_ fun _ _ ec' hmem' => ?_
                    · rw [if_neg Bool.false_ne_true, ← hnone]
                    · simp only [view, hwaiting, List.map_cons, List.map_nil,
                        List.mem_singleton, Prod.mk.injEq, Option.some.injEq, true_and] at hmem'
                      rw [hmem', hec]
                | true =>
                    refine iff_of_false (fun heq => ?_) fun hno => ?_
                    · have hpipes := congrArg AcceptLoop.State.pipe (Option.some.inj heq)
                      rw [if_pos rfl, hnone] at hpipes
                      cases hpipes
                    · cases hec.symm.trans (hno s' rfl ec hmem)
          · simp [AcceptLoop.step, MovableLoop.step, PipeAcceptor.step, view, hthrew, hcalling,
              hwaiting, hid]

/-- The two servers of the tests do the same exactly as long as no handler is
told that its connect failed. -/
theorem servers_agree_iff (labels : List Label) :
    (∀ ls, ls <+: labels →
        AcceptLoop.system.run AcceptLoop.start ls = (system.run start ls).map view) ↔
      system.AllSteps (fun s l => AcceptLoop.NoConnectError (view s) l) start labels :=
  System.forall_prefix_run_eq_iff_allSteps (f := view) (I := Untroubled)
    (C := fun s l => AcceptLoop.NoConnectError (view s) l) (fun _ _ _ hs hl h => hs.step hl h)
    (fun _ l hs => step_view_iff hs l) ⟨sound_start, rfl⟩ labels

end Winasio.MovableLoop
