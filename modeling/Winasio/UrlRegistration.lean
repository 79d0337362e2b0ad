import Mathlib.Data.List.Nodup
import Winasio.Basic
import Winasio.Components
import Winasio.Transition

/-!
`basic_http_url` and the two versions of its `url_handler`: the URLs, URL
groups and server sessions that HTTP.sys keeps for the objects of a process.
-/

namespace Winasio.UrlRegistration

open Winasio.Transition

/-- Where a URL is registered: at a request queue, or in a URL group. -/
inductive Owner where
  | queue (handle : Nat)
  | urlGroup (groupId : Nat)
  deriving DecidableEq, Repr

/-- What HTTP.sys keeps for this process: the open server sessions, the open URL
groups with their sessions, and the registered URLs with their owners. It is
assumed to tell URLs apart as strings, and to remove what is registered and
close what is open whenever it is asked to; a URL it refuses for any other
reason, such as another process having it, is one that is not allowed. -/
structure Kernel where
  sessions : List Nat := []
  groups : List (Nat × Nat) := []
  urls : List (Owner × WString) := []
  deriving DecidableEq, Repr

namespace Kernel

/-- A URL group takes its URLs along. -/
def closeUrlGroup (k : Kernel) (groupId : Nat) : Kernel × Bool :=
  if groupId ∈ k.groups.map Prod.fst then
    ({ k with
        groups := k.groups.filter fun g => g.1 ≠ groupId
        urls := k.urls.filter fun u => u.1 ≠ .urlGroup groupId }, true)
  else (k, false)

/-- A server session takes its URL groups along. -/
def closeServerSession (k : Kernel) (sessionId : Nat) : Kernel × Bool :=
  if sessionId ∈ k.sessions then
    ({ sessions := k.sessions.filter fun s => s ≠ sessionId
       groups := k.groups.filter fun g => g.2 ≠ sessionId
       urls := k.urls.filter fun u =>
         ∀ g ∈ k.groups, g.2 = sessionId → u.1 ≠ .urlGroup g.1 }, true)
  else (k, false)

def CanHold (k : Kernel) : Owner → Prop
  | .queue _ => True
  | .urlGroup groupId => groupId ∈ k.groups.map Prod.fst

instance (k : Kernel) : DecidablePred k.CanHold
  | .queue _ => inferInstanceAs (Decidable True)
  | .urlGroup groupId => inferInstanceAs (Decidable (groupId ∈ k.groups.map Prod.fst))

/-- A URL is registered once, whoever its owner is. -/
def addUrl (k : Kernel) (owner : Owner) (url : WString) (allowed : Bool) : Kernel × Bool :=
  if allowed = true ∧ k.CanHold owner ∧ url ∉ k.urls.map Prod.snd then
    ({ k with urls := k.urls ++ [(owner, url)] }, true)
  else (k, false)

def removeUrl (k : Kernel) (owner : Owner) (url : WString) : Kernel × Bool :=
  if (owner, url) ∈ k.urls then
    ({ k with urls := k.urls.filter fun u => u ≠ (owner, url) }, true)
  else (k, false)

end Kernel

inductive HttpMajorVersion where
  | httpVer1
  | httpVer2
  deriving DecidableEq, Repr

/-- How HTTP.sys answers the calls of a construction: the ids it gives out,
and whether the group is bound and the URL allowed. -/
structure Answers where
  sessionId : Option Nat
  groupId : Option Nat
  bound : Bool
  allowed : Bool
  deriving DecidableEq, Repr

inductive UrlHandler where
  | ver1 (queueHandle : Nat)
  | ver2 (sessionId : Nat) (groupId : Nat)
  deriving DecidableEq, Repr

namespace UrlHandler

def owner : UrlHandler → Owner
  | .ver1 queueHandle => .queue queueHandle
  | .ver2 _ groupId => .urlGroup groupId

def sessionId : UrlHandler → Nat
  | .ver1 _ => 0
  | .ver2 sessionId _ => sessionId

def groupId : UrlHandler → Nat
  | .ver1 _ => 0
  | .ver2 _ groupId => groupId

/-- The constructor. It returns early where a session or a group cannot be
created; only the binding is asserted. -/
def create (queueHandle : Nat) (a : Answers) (k : Kernel) :
    HttpMajorVersion → UrlHandler × Kernel × Bool
  | .httpVer1 => (.ver1 queueHandle, k, true)
  | .httpVer2 =>
      match a.sessionId with
      | none => (.ver2 0 0, k, true)
      | some sessionId =>
          let k := { k with sessions := k.sessions ++ [sessionId] }
          match a.groupId with
          | none => (.ver2 sessionId 0, k, true)
          | some groupId =>
              (.ver2 sessionId groupId, { k with groups := k.groups ++ [(groupId, sessionId)] },
                a.bound)

/-- The destructor closes what it has an id of, and asserts that it could. -/
def destroy (k : Kernel) : UrlHandler → Kernel × Bool
  | .ver1 _ => (k, true)
  | .ver2 sessionId groupId =>
      let (k, closedGroup) := if groupId ≠ 0 then k.closeUrlGroup groupId else (k, true)
      let (k, closedSession) :=
        if sessionId ≠ 0 then k.closeServerSession sessionId else (k, true)
      (k, closedGroup && closedSession)

def addUrl (h : UrlHandler) (k : Kernel) (url : WString) (allowed : Bool) : Kernel × Bool :=
  k.addUrl h.owner url allowed

def removeUrl (h : UrlHandler) (k : Kernel) (url : WString) : Kernel × Bool :=
  k.removeUrl h.owner url

end UrlHandler

/-- A `basic_http_url`; `added` says whether its constructor has registered
the URL. -/
structure BasicHttpUrl where
  url : WString
  handler : UrlHandler
  added : Bool
  deriving DecidableEq, Repr

def BasicHttpUrl.key (x : BasicHttpUrl) : Owner × WString := (x.handler.owner, x.url)

inductive Abort where
  | construction
  | destruction
  deriving DecidableEq, Repr

structure State where
  kernel : Kernel := {}
  objects : List BasicHttpUrl := []
  aborted : Option Abort := none
  deriving DecidableEq, Repr

inductive Label where
  | construct (version : HttpMajorVersion) (queueHandle : Nat) (url : WString) (a : Answers)
  | destruct (self : Nat)
  deriving DecidableEq, Repr

/-- An id that HTTP.sys gives out is not 0 and not in use. -/
def Fresh (used : List Nat) (id : Option Nat) : Prop := ∀ n ∈ id, n ≠ 0 ∧ n ∉ used

instance (used : List Nat) (id : Option Nat) : Decidable (Fresh used id) :=
  inferInstanceAs (Decidable (∀ n ∈ id, n ≠ 0 ∧ n ∉ used))

/-- `basic_http_url(queue_handle, url)`. -/
def construct (ndebug : Bool) (version : HttpMajorVersion) (queueHandle : Nat) (url : WString)
    (a : Answers) (s : State) : State :=
  let (handler, k, bound) := UrlHandler.create queueHandle a s.kernel version
  if !ndebug && !bound then { s with kernel := k, aborted := some .construction }
  else
    let (k, added) := handler.addUrl k url a.allowed
    if !ndebug && !added then { s with kernel := k, aborted := some .construction }
    else { s with kernel := k, objects := s.objects ++ [⟨url, handler, added⟩] }

/-- `~basic_http_url()`, and then that of its `url_handler_`. -/
def destruct (ndebug : Bool) (x : BasicHttpUrl) (self : Nat) (s : State) : State :=
  let (k, removed) := x.handler.removeUrl s.kernel x.url
  if !ndebug && !removed then { s with kernel := k, aborted := some .destruction }
  else
    let (k, closed) := x.handler.destroy k
    if !ndebug && !closed then { s with kernel := k, aborted := some .destruction }
    else { s with kernel := k, objects := s.objects.eraseIdx self }

def step (ndebug : Bool) (s : State) : Label → Option State
  | .construct version queueHandle url a =>
      if s.aborted = none ∧ Fresh s.kernel.sessions a.sessionId ∧
          Fresh (s.kernel.groups.map Prod.fst) a.groupId then
        some (construct ndebug version queueHandle url a s)
      else none
  | .destruct self =>
      if s.aborted = none then (s.objects[self]?).map fun x => destruct ndebug x self s
      else none

def system (ndebug : Bool) : System State Label := ⟨step ndebug⟩

/-- Two objects share neither a session nor a group. -/
def Apart (x y : BasicHttpUrl) : Prop :=
  (x.handler.sessionId = y.handler.sessionId → x.handler.sessionId = 0) ∧
    (x.handler.groupId = y.handler.groupId → x.handler.groupId = 0)

/-- What HTTP.sys keeps against the objects: the open sessions and groups are
theirs, one each, and every registration was made for one of them. -/
structure Ledger (k : Kernel) (objects : List BasicHttpUrl) : Prop where
  sessions : ∀ n, n ∈ k.sessions ↔ n ≠ 0 ∧ ∃ x ∈ objects, x.handler.sessionId = n
  groups : ∀ g, g ∈ k.groups ↔ g.1 ≠ 0 ∧ ∃ x ∈ objects, x.handler = .ver2 g.2 g.1
  apart : objects.Pairwise Apart
  urls : ∀ u ∈ k.urls, ∃ x ∈ objects, x.added = true ∧ x.key = u
  held : ∀ x ∈ objects, x.added = true → x.handler.owner ≠ .urlGroup 0

theorem Apart.symm {x y : BasicHttpUrl} (h : Apart x y) : Apart y x :=
  ⟨fun heq => heq.trans (h.1 heq.symm), fun heq => heq.trans (h.2 heq.symm)⟩

theorem Ledger.perm {k : Kernel} {xs ys : List BasicHttpUrl} (hperm : xs.Perm ys)
    (h : Ledger k xs) : Ledger k ys where
  sessions n := by simpa only [hperm.mem_iff] using h.sessions n
  groups g := by simpa only [hperm.mem_iff] using h.groups g
  apart := (hperm.pairwise_iff Apart.symm).mp h.apart
  urls u hu := by simpa only [hperm.mem_iff] using h.urls u hu
  held x hx := h.held x (hperm.mem_iff.mpr hx)

/-- What is left when an object and what it has are gone. -/
def Kernel.release (k : Kernel) (x : BasicHttpUrl) : Kernel where
  sessions := k.sessions.filter fun n => n ≠ x.handler.sessionId
  groups := k.groups.filter fun g => g.1 ≠ x.handler.groupId
  urls := k.urls.filter fun u => u ≠ x.key ∧ u.1 ≠ .urlGroup x.handler.groupId

theorem removeUrl_eq (h : UrlHandler) (k : Kernel) (url : WString) :
    h.removeUrl k url = ({ k with urls := k.urls.filter fun u => u ≠ (h.owner, url) },
      decide ((h.owner, url) ∈ k.urls)) := by
  unfold UrlHandler.removeUrl Kernel.removeUrl
  by_cases hmem : (h.owner, url) ∈ k.urls
  · rw [if_pos hmem, decide_eq_true hmem]
  · have hself : (k.urls.filter fun u => u ≠ (h.owner, url)) = k.urls :=
      List.filter_eq_self.mpr fun u hu => decide_eq_true fun heq => hmem (heq ▸ hu)
    rw [if_neg hmem, decide_eq_false hmem, hself]

theorem filter_decide_self {α : Type*} {l : List α} {p : α → Prop} [DecidablePred p]
    (h : ∀ a ∈ l, p a) : (l.filter fun a => p a) = l :=
  List.filter_eq_self.mpr fun a ha => decide_eq_true (h a ha)

theorem closeUrlGroup_eq {k : Kernel} {groupId : Nat}
    (hopen : groupId ≠ 0 → groupId ∈ k.groups.map Prod.fst) (hgroups : ∀ g ∈ k.groups, g.1 ≠ 0)
    (hurls : ∀ u ∈ k.urls, u.1 ≠ .urlGroup 0) :
    (if groupId ≠ 0 then k.closeUrlGroup groupId else (k, true)) =
      ({ k with
          groups := k.groups.filter fun g => g.1 ≠ groupId
          urls := k.urls.filter fun u => u.1 ≠ .urlGroup groupId }, true) := by
  by_cases hzero : groupId = 0
  · rw [hzero, if_neg (by simp), filter_decide_self hgroups, filter_decide_self hurls]
  · rw [if_pos hzero, Kernel.closeUrlGroup, if_pos (hopen hzero)]

theorem closeServerSession_eq {k : Kernel} {sessionId : Nat}
    (hopen : sessionId ≠ 0 → sessionId ∈ k.sessions) (hsessions : 0 ∉ k.sessions)
    (hgroups : sessionId ≠ 0 → ∀ g ∈ k.groups, g.2 ≠ sessionId) :
    (if sessionId ≠ 0 then k.closeServerSession sessionId else (k, true)) =
      ({ k with sessions := k.sessions.filter fun n => n ≠ sessionId }, true) := by
  by_cases hzero : sessionId = 0
  · have hself : ∀ n ∈ k.sessions, n ≠ 0 := fun n hn hn0 => hsessions (hn0 ▸ hn)
    rw [hzero, if_neg (by simp), filter_decide_self hself]
  · have hself := hgroups hzero
    have hurls : ∀ u ∈ k.urls, ∀ g ∈ k.groups, g.2 = sessionId → u.1 ≠ .urlGroup g.1 :=
      fun u _ g hg heq => absurd heq (hself g hg)
    rw [if_pos hzero, Kernel.closeServerSession, if_pos (hopen hzero),
      filter_decide_self hself, filter_decide_self hurls]

theorem destroy_ver2 {k : Kernel} {sessionId groupId : Nat}
    (hgroup : groupId ≠ 0 → groupId ∈ k.groups.map Prod.fst)
    (hsession : sessionId ≠ 0 → sessionId ∈ k.sessions) (hsessions : 0 ∉ k.sessions)
    (hgroups : ∀ g ∈ k.groups, g.1 ≠ 0)
    (hown : sessionId ≠ 0 → ∀ g ∈ k.groups, g.1 ≠ groupId → g.2 ≠ sessionId)
    (hurls : ∀ u ∈ k.urls, u.1 ≠ .urlGroup 0) :
    (UrlHandler.ver2 sessionId groupId).destroy k =
      ({ sessions := k.sessions.filter fun n => n ≠ sessionId
         groups := k.groups.filter fun g => g.1 ≠ groupId
         urls := k.urls.filter fun u => u.1 ≠ .urlGroup groupId }, true) := by
  rw [UrlHandler.destroy, closeUrlGroup_eq hgroup hgroups hurls]
  dsimp only
  rw [closeServerSession_eq]
  · rfl
  · exact hsession
  · exact hsessions
  · intro hzero g hg
    obtain ⟨hg, hne⟩ := List.mem_filter.mp hg
    exact hown hzero g hg (of_decide_eq_true hne)

section Release

variable {k : Kernel} {x : BasicHttpUrl} {rest : List BasicHttpUrl}

theorem Ledger.not_mem_zero {objects : List BasicHttpUrl} (h : Ledger k objects) :
    0 ∉ k.sessions := fun hmem => ((h.sessions 0).mp hmem).1 rfl

theorem Ledger.fst_ne_zero {objects : List BasicHttpUrl} (h : Ledger k objects) {g : Nat × Nat}
    (hg : g ∈ k.groups) : g.1 ≠ 0 := ((h.groups g).mp hg).1

theorem Ledger.owner_ne {objects : List BasicHttpUrl} (h : Ledger k objects)
    {u : Owner × WString} (hu : u ∈ k.urls) : u.1 ≠ .urlGroup 0 := by
  obtain ⟨y, hy, hadded, rfl⟩ := h.urls u hu
  exact h.held y hy hadded

/-- The group of an object is the only one of its session. -/
theorem Ledger.snd_ne (h : Ledger k (x :: rest)) (hsession : x.handler.sessionId ≠ 0)
    {g : Nat × Nat} (hg : g ∈ k.groups) (hgroup : g.1 ≠ x.handler.groupId) :
    g.2 ≠ x.handler.sessionId := by
  intro heq
  obtain ⟨-, y, hy, hhandler⟩ := (h.groups g).mp hg
  rcases List.mem_cons.mp hy with rfl | hy
  · exact hgroup (by rw [hhandler]; rfl)
  · have hapart := (List.pairwise_cons.mp h.apart).1 y hy
    exact hsession (hapart.1 (by rw [hhandler, ← heq]; rfl))

/-- The destructors take away what the object has, and every call of theirs
but the removal of a URL that is not registered succeeds. -/
theorem destroy_eq (h : Ledger k (x :: rest)) :
    x.handler.destroy (x.handler.removeUrl k x.url).1 = (k.release x, true) := by
  rw [removeUrl_eq]
  obtain ⟨url, handler, added⟩ := x
  cases handler with
  | ver1 queueHandle =>
      have hsessions : (k.sessions.filter fun n => n ≠ 0) = k.sessions :=
        filter_decide_self fun n hn => ((h.sessions n).mp hn).1
      have hgroups : (k.groups.filter fun g => g.1 ≠ 0) = k.groups :=
        filter_decide_self fun g hg => h.fst_ne_zero hg
      have hurls : (k.urls.filter fun u => u ≠ (.queue queueHandle, url) ∧ u.1 ≠ .urlGroup 0) =
          k.urls.filter fun u => u ≠ (.queue queueHandle, url) :=
        List.filter_congr fun u hu => by simp [h.owner_ne hu]
      change _ = (Kernel.mk (k.sessions.filter fun n => n ≠ 0) (k.groups.filter fun g => g.1 ≠ 0)
        (k.urls.filter fun u => u ≠ (.queue queueHandle, url) ∧ u.1 ≠ .urlGroup 0), true)
      rw [hsessions, hgroups, hurls]
      rfl
  | ver2 sessionId groupId =>
      have hgroup : groupId ≠ 0 → groupId ∈ k.groups.map Prod.fst := fun hzero =>
        List.mem_map.mpr ⟨(groupId, sessionId),
          (h.groups _).mpr ⟨hzero, _, List.mem_cons_self, rfl⟩, rfl⟩
      have hsession : sessionId ≠ 0 → sessionId ∈ k.sessions := fun hzero =>
        (h.sessions _).mpr ⟨hzero, _, List.mem_cons_self, rfl⟩
      have hurls : (k.urls.filter fun u => u ≠ (.urlGroup groupId, url) ∧
          u.1 ≠ .urlGroup groupId) = (k.urls.filter fun u => u ≠ (.urlGroup groupId, url)).filter
            fun u => u.1 ≠ .urlGroup groupId := by
        rw [List.filter_filter]
        exact List.filter_congr fun u _ => by simp [Bool.and_comm]
      change _ = (Kernel.mk _ _ (k.urls.filter fun u => u ≠ (.urlGroup groupId, url) ∧
        u.1 ≠ .urlGroup groupId), true)
      rw [hurls]
      exact destroy_ver2 hgroup hsession h.not_mem_zero (fun g hg => h.fst_ne_zero hg)
        (fun hzero g hg => h.snd_ne hzero hg) fun u hu => h.owner_ne (List.mem_filter.mp hu).1

theorem Ledger.release (h : Ledger k (x :: rest)) : Ledger (k.release x) rest := by
  obtain ⟨hapart, hrest⟩ := List.pairwise_cons.mp h.apart
  refine ⟨fun n => ?_, fun g => ?_, hrest, fun u hu => ?_, fun y hy => h.held y (.tail x hy)⟩
  · rw [Kernel.release, List.mem_filter, h.sessions n]
    constructor
    · rintro ⟨⟨hzero, y, hy, rfl⟩, hne⟩
      rcases List.mem_cons.mp hy with rfl | hy
      · exact absurd rfl (of_decide_eq_true hne)
      · exact ⟨hzero, y, hy, rfl⟩
    · rintro ⟨hzero, y, hy, rfl⟩
      refine ⟨⟨hzero, y, .tail x hy, rfl⟩, decide_eq_true fun heq => hzero ?_⟩
      exact heq.trans ((hapart y hy).1 heq.symm)
  · rw [Kernel.release, List.mem_filter, h.groups g]
    constructor
    · rintro ⟨⟨hzero, y, hy, hhandler⟩, hne⟩
      rcases List.mem_cons.mp hy with rfl | hy
      · exact absurd (by rw [hhandler]; rfl) (of_decide_eq_true hne)
      · exact ⟨hzero, y, hy, hhandler⟩
    · rintro ⟨hzero, y, hy, hhandler⟩
      refine ⟨⟨hzero, y, .tail x hy, hhandler⟩, decide_eq_true fun heq => hzero ?_⟩
      have hgroup : y.handler.groupId = g.1 := by rw [hhandler]; rfl
      exact heq.trans ((hapart y hy).2 (heq.symm.trans hgroup.symm))
  · obtain ⟨hu, hne⟩ := List.mem_filter.mp hu
    obtain ⟨y, hy, hadded, rfl⟩ := h.urls u hu
    rcases List.mem_cons.mp hy with rfl | hy
    · exact absurd rfl (of_decide_eq_true hne).1
    · exact ⟨y, hy, hadded, rfl⟩

/-- Registrations of the other objects stay, but where one is of the same URL
at the same queue. -/
theorem Ledger.mem_release (h : Ledger k (x :: rest)) {y : BasicHttpUrl} (hy : y ∈ rest)
    (hadded : y.added = true) (hkey : y.key ≠ x.key) (hmem : y.key ∈ k.urls) :
    y.key ∈ (k.release x).urls := by
  refine List.mem_filter.mpr ⟨hmem, decide_eq_true ⟨hkey, fun howner => ?_⟩⟩
  have hheld := h.held y (.tail x hy) hadded
  have hapart := (List.pairwise_cons.mp h.apart).1 y hy
  change y.handler.owner = _ at howner
  rw [howner] at hheld
  cases hhandler : y.handler with
  | ver1 queueHandle =>
      rw [hhandler] at howner
      cases howner
  | ver2 sessionId groupId =>
      rw [hhandler] at howner
      cases howner
      exact hheld (congrArg _ (hapart.2 (by rw [hhandler]; rfl)))

end Release

section Construct

variable {k : Kernel} {objects : List BasicHttpUrl}

/-- A new object whose session and group, if it has them, were not in use. -/
theorem Ledger.cons {k' : Kernel} {x : BasicHttpUrl} (h : Ledger k objects)
    (hadded : x.added = false)
    (hsessions : ∀ n, n ∈ k'.sessions ↔ n ∈ k.sessions ∨ n ≠ 0 ∧ x.handler.sessionId = n)
    (hgroups : ∀ g, g ∈ k'.groups ↔ g ∈ k.groups ∨ g.1 ≠ 0 ∧ x.handler = .ver2 g.2 g.1)
    (hurls : k'.urls = k.urls) (hsession : x.handler.sessionId ∉ k.sessions)
    (hgroup : x.handler.groupId ∉ k.groups.map Prod.fst) : Ledger k' (x :: objects) := by
  refine ⟨fun n => ?_, fun g => ?_, List.pairwise_cons.mpr ⟨fun y hy => ⟨fun heq => ?_,
    fun heq => ?_⟩, h.apart⟩, fun u hu => ?_, fun y hy hyadded => ?_⟩
  · rw [hsessions, h.sessions, ← and_or_left, or_comm]
    simp only [List.mem_cons, exists_eq_or_imp]
  · rw [hgroups, h.groups, ← and_or_left, or_comm]
    simp only [List.mem_cons, exists_eq_or_imp]
  · by_contra hzero
    exact hsession ((h.sessions _).mpr ⟨hzero, y, hy, heq.symm⟩)
  · by_contra hzero
    cases hhandler : y.handler with
    | ver1 queueHandle => exact hzero (heq.trans (by rw [hhandler]; rfl))
    | ver2 sessionId groupId =>
        have hid : x.handler.groupId = groupId := heq.trans (by rw [hhandler]; rfl)
        exact hgroup (List.mem_map.mpr ⟨(groupId, sessionId),
          (h.groups _).mpr ⟨hid ▸ hzero, y, hy, hhandler⟩, hid.symm⟩)
  · rw [hurls] at hu
    obtain ⟨y, hy, hyu⟩ := h.urls u hu
    exact ⟨y, .tail x hy, hyu⟩
  · rcases List.mem_cons.mp hy with rfl | hy
    · rw [hadded] at hyadded
      cases hyadded
    · exact h.held y hy hyadded

theorem Ledger.create (h : Ledger k objects) (version : HttpMajorVersion) (queueHandle : Nat)
    (url : WString) {a : Answers} (hsession : Fresh k.sessions a.sessionId)
    (hgroup : Fresh (k.groups.map Prod.fst) a.groupId) :
    Ledger (UrlHandler.create queueHandle a k version).2.1
      (⟨url, (UrlHandler.create queueHandle a k version).1, false⟩ :: objects) ∧
      (UrlHandler.create queueHandle a k version).2.1.urls = k.urls := by
  have hzero : 0 ∉ k.groups.map Prod.fst := by
    rintro hmem
    obtain ⟨g, hg, hg0⟩ := List.mem_map.mp hmem
    exact h.fst_ne_zero hg hg0
  cases version with
  | httpVer1 =>
      refine ⟨h.cons rfl (fun n => ?_) (fun g => ?_) rfl h.not_mem_zero hzero, rfl⟩
      · exact (or_iff_left fun hn => hn.1 hn.2.symm).symm
      · exact (or_iff_left fun hg => nomatch hg.2).symm
  | httpVer2 =>
      obtain ⟨sessionId, groupId, bound, allowed⟩ := a
      cases sessionId with
      | none =>
          refine ⟨h.cons rfl (fun n => ?_) (fun g => ?_) rfl h.not_mem_zero hzero, rfl⟩
          · exact (or_iff_left fun hn => hn.1 hn.2.symm).symm
          · exact (or_iff_left fun hg => hg.1 (by cases g; cases hg.2; rfl)).symm
      | some sessionId =>
          obtain ⟨hsession0, hunused⟩ := hsession sessionId rfl
          have hsessions : ∀ n, n ∈ k.sessions ++ [sessionId] ↔
              n ∈ k.sessions ∨ n ≠ 0 ∧ sessionId = n := by
            intro n
            rw [List.mem_append, List.mem_singleton]
            exact or_congr_right ⟨fun heq => ⟨heq ▸ hsession0, heq.symm⟩, fun hn => hn.2.symm⟩
          cases groupId with
          | none =>
              refine ⟨h.cons rfl hsessions (fun g => ?_) rfl hunused hzero, rfl⟩
              exact (or_iff_left fun hg => hg.1 (by cases g; cases hg.2; rfl)).symm
          | some groupId =>
              obtain ⟨hgroup0, hfree⟩ := hgroup groupId rfl
              refine ⟨h.cons rfl hsessions (fun g => ?_) rfl hunused hfree, rfl⟩
              change g ∈ k.groups ++ [(groupId, sessionId)] ↔ _
              rw [List.mem_append, List.mem_singleton]
              refine or_congr_right ⟨fun heq => ⟨heq ▸ hgroup0, heq ▸ rfl⟩, fun hg => ?_⟩
              cases g
              cases hg.2
              rfl

/-- The constructor registers the URL, or changes nothing about the URLs. -/
theorem Ledger.addUrl {url : WString} {handler : UrlHandler}
    (h : Ledger k (⟨url, handler, false⟩ :: objects)) (allowed : Bool) :
    let r := handler.addUrl k url allowed
    Ledger r.1 (⟨url, handler, r.2⟩ :: objects) ∧
      r.1.urls = k.urls ++ (if r.2 then [(handler.owner, url)] else []) ∧
      (r.2 = true → url ∉ k.urls.map Prod.snd) := by
  unfold UrlHandler.addUrl Kernel.addUrl
  split
  · next hadd =>
      obtain ⟨-, hholds, hurl⟩ := hadd
      refine ⟨⟨?_, ?_, ?_, fun u hu => ?_, fun y hy hyadded => ?_⟩, rfl, fun _ => hurl⟩
      · simpa only [List.mem_cons, exists_eq_or_imp] using h.sessions
      · simpa only [List.mem_cons, exists_eq_or_imp] using h.groups
      · obtain ⟨hapart, hrest⟩ := List.pairwise_cons.mp h.apart
        exact List.pairwise_cons.mpr ⟨fun y hy => hapart y hy, hrest⟩
      · rcases List.mem_append.mp hu with hu | hu
        · obtain ⟨y, hy, hyadded, rfl⟩ := h.urls u hu
          rcases List.mem_cons.mp hy with rfl | hy
          · cases hyadded
          · exact ⟨y, .tail _ hy, hyadded, rfl⟩
        · exact ⟨_, List.mem_cons_self, rfl, (List.mem_singleton.mp hu).symm⟩
      · rcases List.mem_cons.mp hy with rfl | hy
        · intro howner
          change handler.owner = _ at howner
          rw [howner] at hholds
          obtain ⟨g, hg, hg0⟩ := List.mem_map.mp hholds
          exact h.fst_ne_zero hg hg0
        · exact h.held y (.tail _ hy) hyadded
  · exact ⟨h, by simp, nofun⟩

end Construct

/-- What a constructor that does not abort has done. -/
structure Constructed (ndebug : Bool) (s s' : State) (x : BasicHttpUrl) : Prop where
  aborted : s'.aborted = s.aborted
  objects : s'.objects = s.objects ++ [x]
  ledger : Ledger s'.kernel (x :: s.objects)
  urls : s'.kernel.urls = s.kernel.urls ++ (if x.added then [x.key] else [])
  fresh : x.added = true → x.url ∉ s.kernel.urls.map Prod.snd
  debug : ndebug = false → x.added = true

theorem construct_cases (ndebug : Bool) (version : HttpMajorVersion) (queueHandle : Nat)
    (url : WString) {a : Answers} {s : State} (h : Ledger s.kernel s.objects)
    (hsession : Fresh s.kernel.sessions a.sessionId)
    (hgroup : Fresh (s.kernel.groups.map Prod.fst) a.groupId) :
    (construct ndebug version queueHandle url a s).aborted = some .construction ∨
      ∃ x, Constructed ndebug s (construct ndebug version queueHandle url a s) x := by
  obtain ⟨hcreated, hurls⟩ := h.create version queueHandle url hsession hgroup
  unfold construct
  generalize UrlHandler.create queueHandle a s.kernel version = created at hcreated hurls ⊢
  obtain ⟨handler, k, bound⟩ := created
  obtain ⟨hadded, haddedUrls, hfresh⟩ := hcreated.addUrl a.allowed
  dsimp only at hadded haddedUrls hfresh hurls ⊢
  generalize handler.addUrl k url a.allowed = result at hadded haddedUrls hfresh ⊢
  obtain ⟨k', added⟩ := result
  dsimp only at hadded haddedUrls hfresh ⊢
  rw [hurls] at haddedUrls hfresh
  split
  · exact .inl rfl
  · split
    · exact .inl rfl
    · next hadd =>
        refine .inr ⟨⟨url, handler, added⟩, rfl, rfl, hadded, haddedUrls, hfresh, ?_⟩
        rintro rfl
        simpa using hadd

/-- A destructor has taken away what its object had, or failed to remove a URL
that is not registered. -/
theorem destruct_cases {ndebug : Bool} {x : BasicHttpUrl} {self : Nat} {s : State}
    (h : Ledger s.kernel s.objects) (hx : s.objects[self]? = some x) :
    (ndebug = false ∧ x.key ∉ s.kernel.urls ∧
        (destruct ndebug x self s).aborted = some .destruction) ∨
      destruct ndebug x self s =
        { s with kernel := s.kernel.release x, objects := s.objects.eraseIdx self } := by
  have hledger := h.perm (Components.perm_cons_eraseIdx hx).symm
  have hdestroy := destroy_eq hledger
  unfold destruct
  rw [removeUrl_eq] at hdestroy ⊢
  dsimp only at hdestroy ⊢
  split
  · next habort =>
      obtain ⟨hndebug, hremoved⟩ := Bool.and_eq_true_iff.mp habort
      refine .inl ⟨by simpa using hndebug, ?_, rfl⟩
      simpa [BasicHttpUrl.key] using hremoved
  · rw [hdestroy]
    simp

def Registered (k : Kernel) (x : BasicHttpUrl) : Prop := x.added = true → x.key ∈ k.urls

/-- No two registrations were made of one URL for one owner. -/
def Distinct (x y : BasicHttpUrl) : Prop := x.added = true → y.added = true → x.key ≠ y.key

/-- Every object that has registered its URL has it registered still. -/
structure Orderly (k : Kernel) (objects : List BasicHttpUrl) : Prop where
  registered : ∀ x ∈ objects, Registered k x
  distinct : objects.Pairwise Distinct

theorem Distinct.symm {x y : BasicHttpUrl} (h : Distinct x y) : Distinct y x :=
  fun hy hx => (h hx hy).symm

theorem Orderly.perm {k : Kernel} {xs ys : List BasicHttpUrl} (hperm : xs.Perm ys)
    (h : Orderly k xs) : Orderly k ys :=
  ⟨fun x hx => h.registered x (hperm.mem_iff.mpr hx),
    (hperm.pairwise_iff Distinct.symm).mp h.distinct⟩

theorem Registered.constructed {ndebug : Bool} {s s' : State} {x y : BasicHttpUrl}
    (h : Constructed ndebug s s' x) (hy : Registered s.kernel y) : Registered s'.kernel y := by
  intro hadded
  rw [h.urls]
  exact List.mem_append_left _ (hy hadded)

theorem Constructed.registered {ndebug : Bool} {s s' : State} {x : BasicHttpUrl}
    (h : Constructed ndebug s s' x) : Registered s'.kernel x := by
  intro hadded
  rw [h.urls, if_pos hadded]
  exact List.mem_append_right _ (List.mem_singleton_self _)

theorem Orderly.constructed {ndebug : Bool} {s s' : State} {x : BasicHttpUrl}
    (h : Constructed ndebug s s' x) (hs : Orderly s.kernel s.objects) :
    Orderly s'.kernel s'.objects := by
  rw [h.objects]
  refine Orderly.perm (List.perm_append_singleton x s.objects).symm ⟨fun y hy => ?_,
    List.pairwise_cons.mpr ⟨fun y hy hx hyadded heq => ?_, hs.distinct⟩⟩
  · rcases List.mem_cons.mp hy with rfl | hy
    · exact h.registered
    · exact (hs.registered y hy).constructed h
  · refine h.fresh hx (List.mem_map.mpr ⟨y.key, hs.registered y hy hyadded, ?_⟩)
    rw [← heq]
    rfl

/-- The end of an object that registered its URL itself, or whose URL is
nobody else's at its owner. -/
theorem Orderly.release {k : Kernel} {x : BasicHttpUrl} {rest : List BasicHttpUrl}
    (hledger : Ledger k (x :: rest)) (h : Orderly k (x :: rest))
    (hx : x.added = true ∨ ∀ y ∈ rest, y.added = true → y.key ≠ x.key) :
    Orderly (k.release x) rest := by
  obtain ⟨hdistinct, hrest⟩ := List.pairwise_cons.mp h.distinct
  refine ⟨fun y hy hadded => ?_, hrest⟩
  refine hledger.mem_release hy hadded ?_ (h.registered y (.tail x hy) hadded)
  rcases hx with hx | hx
  · exact (hdistinct y hy hx hadded).symm
  · exact hx y hy hadded

def IsVer2 (x : BasicHttpUrl) : Prop := ∀ queueHandle, x.handler ≠ .ver1 queueHandle

/-- A URL group has one object, so no other one can take its URL away. -/
theorem Ledger.key_ne {k : Kernel} {x y : BasicHttpUrl} {rest : List BasicHttpUrl}
    (h : Ledger k (x :: rest)) (hy : y ∈ rest) (hadded : y.added = true) (hver2 : IsVer2 y) :
    y.key ≠ x.key := by
  intro heq
  have howner : y.handler.owner = x.handler.owner := congrArg Prod.fst heq
  have hheld := h.held y (.tail x hy) hadded
  have hapart := (List.pairwise_cons.mp h.apart).1 y hy
  cases hyh : y.handler with
  | ver1 queueHandle => exact hver2 queueHandle hyh
  | ver2 sessionId groupId =>
      rw [hyh] at howner hheld
      cases hxh : x.handler with
      | ver1 queueHandle =>
          rw [hxh] at howner
          cases howner
      | ver2 sessionId' groupId' =>
          rw [hxh] at howner
          cases howner
          have hzero := hapart.2 (by rw [hxh, hyh]; rfl)
          rw [hxh] at hzero
          exact hheld (congrArg Owner.urlGroup hzero)

/-- HTTP.sys keeps for the objects what they have, no more and no less, as far
as their version can see to it; a debug build sees to all of it. No URL has two
owners. -/
structure Accounted (ndebug : Bool) (s : State) : Prop where
  ledger : Ledger s.kernel s.objects
  once : (s.kernel.urls.map Prod.snd).Nodup
  ver2 : ∀ x ∈ s.objects, IsVer2 x → Registered s.kernel x
  debug : ndebug = false → Orderly s.kernel s.objects ∧ ∀ x ∈ s.objects, x.added = true

/-- A URL that is registered was not before. -/
theorem Constructed.nodup_urls {ndebug : Bool} {s s' : State} {x : BasicHttpUrl}
    (h : Constructed ndebug s s' x) (hs : (s.kernel.urls.map Prod.snd).Nodup) :
    (s'.kernel.urls.map Prod.snd).Nodup := by
  rw [h.urls]
  cases hadded : x.added with
  | false => simpa using hs
  | true =>
      rw [if_pos rfl, List.map_append, List.map_singleton, ← List.concat_eq_append]
      exact List.Nodup.concat (h.fresh hadded) hs

theorem Accounted.constructed {ndebug : Bool} {s s' : State} {x : BasicHttpUrl}
    (h : Constructed ndebug s s' x) (hs : Accounted ndebug s) : Accounted ndebug s' := by
  have hperm := (List.perm_append_singleton x s.objects).symm
  refine ⟨?_, h.nodup_urls hs.once, fun y hy hver2 => ?_, fun hndebug => ⟨?_, fun y hy => ?_⟩⟩
  · rw [h.objects]
    exact h.ledger.perm hperm
  · rw [h.objects] at hy
    rcases List.mem_cons.mp (hperm.mem_iff.mpr hy) with rfl | hy
    · exact h.registered
    · exact (hs.ver2 y hy hver2).constructed h
  · exact (hs.debug hndebug).1.constructed h
  · rw [h.objects] at hy
    rcases List.mem_cons.mp (hperm.mem_iff.mpr hy) with rfl | hy
    · exact h.debug hndebug
    · exact (hs.debug hndebug).2 y hy

theorem Accounted.destructed {ndebug : Bool} {s : State} {x : BasicHttpUrl} {self : Nat}
    (hs : Accounted ndebug s) (hx : s.objects[self]? = some x) :
    Accounted ndebug
      { s with kernel := s.kernel.release x, objects := s.objects.eraseIdx self } := by
  have hperm := (Components.perm_cons_eraseIdx hx).symm
  have hledger := hs.ledger.perm hperm
  have hmem : ∀ y ∈ s.objects.eraseIdx self, y ∈ s.objects :=
    fun y hy => hperm.mem_iff.mpr (.tail x hy)
  refine ⟨hledger.release, hs.once.sublist (List.filter_sublist.map _),
    fun y hy hver2 hadded => ?_, fun hndebug => ⟨?_, fun y hy => ?_⟩⟩
  · exact hledger.mem_release hy hadded (hledger.key_ne hy hadded hver2)
      (hs.ver2 y (hmem y hy) hver2 hadded)
  · obtain ⟨horderly, hadded⟩ := hs.debug hndebug
    exact (horderly.perm hperm).release hledger (.inl (hadded x (List.mem_of_getElem? hx)))
  · exact (hs.debug hndebug).2 y (hmem y hy)

def Sound (ndebug : Bool) (s : State) : Prop :=
  s.aborted ≠ some .destruction ∧ (s.aborted = none → Accounted ndebug s)

theorem step_construct {ndebug : Bool} {s s' : State} {version : HttpMajorVersion}
    {queueHandle : Nat} {url : WString} {a : Answers}
    (h : step ndebug s (.construct version queueHandle url a) = some s') :
    s.aborted = none ∧ Fresh s.kernel.sessions a.sessionId ∧
      Fresh (s.kernel.groups.map Prod.fst) a.groupId ∧
      construct ndebug version queueHandle url a s = s' := by
  obtain ⟨⟨haborted, hsession, hgroup⟩, heq⟩ := Option.ite_none_right_eq_some.mp h
  exact ⟨haborted, hsession, hgroup, Option.some.inj heq⟩

theorem step_destruct {ndebug : Bool} {s s' : State} {self : Nat}
    (h : step ndebug s (.destruct self) = some s') :
    s.aborted = none ∧ ∃ x, s.objects[self]? = some x ∧ destruct ndebug x self s = s' := by
  obtain ⟨haborted, h⟩ := Option.ite_none_right_eq_some.mp h
  exact ⟨haborted, Option.map_eq_some_iff.mp h⟩

theorem Sound.step {ndebug : Bool} {s s' : State} {l : Label} (hs : Sound ndebug s)
    (h : UrlRegistration.step ndebug s l = some s') : Sound ndebug s' := by
  cases l with
  | construct version queueHandle url a =>
      obtain ⟨haborted, hsession, hgroup, rfl⟩ := step_construct h
      have haccounted := hs.2 haborted
      rcases construct_cases ndebug version queueHandle url haccounted.ledger hsession hgroup with
        habort | ⟨x, hx⟩
      · exact ⟨by rw [habort]; nofun, by rw [habort]; nofun⟩
      · exact ⟨by rw [hx.aborted, haborted]; nofun, fun _ => haccounted.constructed hx⟩
  | destruct self =>
      obtain ⟨haborted, x, hx, rfl⟩ := step_destruct h
      have haccounted := hs.2 haborted
      rcases destruct_cases haccounted.ledger hx with ⟨hndebug, hnot, -⟩ | heq
      · obtain ⟨horderly, hadded⟩ := haccounted.debug hndebug
        have hmem := List.mem_of_getElem? hx
        exact absurd (horderly.registered x hmem (hadded x hmem)) hnot
      · rw [heq]
        exact ⟨hs.1, fun _ => haccounted.destructed hx⟩

/-- Whatever objects a process makes and destroys, and whatever HTTP.sys
refuses, no destructor aborts, and HTTP.sys has open exactly the sessions and
groups of the objects there are and no URL but theirs, each for one owner; those
of the second version have every URL that they registered. -/
theorem urls_accounted (ndebug : Bool) (labels : List Label) :
    (system ndebug).AllStates (Sound ndebug) {} labels := by
  refine System.AllStates.of_invariant (fun _ _ _ => Sound.step) (fun _ h => h) ?_ labels
  refine ⟨nofun, fun _ => ⟨⟨?_, ?_, .nil, ?_, ?_⟩, .nil, ?_, fun _ => ⟨⟨?_, .nil⟩, ?_⟩⟩⟩
  all_goals simp

/-- The end of an object takes no URL away from another one. -/
def Harmless (s : State) : Label → Prop
  | .construct _ _ _ _ => True
  | .destruct self => ∀ x, s.objects[self]? = some x →
      x.added = true ∨ ∀ y ∈ s.objects, y.added = true → y.key ≠ x.key

def AllRegistered (s : State) : Prop :=
  s.aborted = none → ∀ x ∈ s.objects, Registered s.kernel x

def Kept (s : State) : Prop :=
  s.aborted = none → Ledger s.kernel s.objects ∧ Orderly s.kernel s.objects

theorem Kept.step {ndebug : Bool} {s s' : State} {l : Label} (hs : Kept s) (hl : Harmless s l)
    (h : UrlRegistration.step ndebug s l = some s') : Kept s' := by
  cases l with
  | construct version queueHandle url a =>
      obtain ⟨haborted, hsession, hgroup, rfl⟩ := step_construct h
      obtain ⟨hledger, horderly⟩ := hs haborted
      rcases construct_cases ndebug version queueHandle url hledger hsession hgroup with
        habort | ⟨x, hx⟩
      · intro hnone
        cases habort.symm.trans hnone
      · refine fun _ => ⟨?_, horderly.constructed hx⟩
        rw [hx.objects]
        exact hx.ledger.perm (List.perm_append_singleton x s.objects).symm
  | destruct self =>
      obtain ⟨haborted, x, hx, rfl⟩ := step_destruct h
      obtain ⟨hledger, horderly⟩ := hs haborted
      rcases destruct_cases hledger hx with ⟨-, -, habort⟩ | heq
      · intro hnone
        cases habort.symm.trans hnone
      · have hperm := (Components.perm_cons_eraseIdx hx).symm
        have hrest := hledger.perm hperm
        rw [heq]
        refine fun _ => ⟨hrest.release, (horderly.perm hperm).release hrest ?_⟩
        exact (hl x hx).imp_right fun hother y hy => hother y (hperm.mem_iff.mpr (.tail x hy))

/-- The end of an object that did not register its URL, while another one has
registered it at the same queue, takes the registration of that one away. -/
theorem harmless_of_allRegistered {ndebug : Bool} {s s' : State} {l : Label} (hs : Kept s)
    (h : UrlRegistration.step ndebug s l = some s') (hs' : AllRegistered s') : Harmless s l := by
  cases l with
  | construct version queueHandle url a => trivial
  | destruct self =>
      intro x hx
      obtain ⟨haborted, x', hx', rfl⟩ := step_destruct h
      cases hx.symm.trans hx'
      obtain ⟨hledger, horderly⟩ := hs haborted
      refine Classical.or_iff_not_imp_left.mpr fun hnot y hy hadded hkey => ?_
      have hmem := horderly.registered y hy hadded
      rcases destruct_cases hledger hx with ⟨-, hgone, -⟩ | heq
      · exact hgone (hkey ▸ hmem)
      · have hrest : y ∈ s.objects.eraseIdx self := by
          rcases List.mem_cons.mp ((Components.perm_cons_eraseIdx hx).mem_iff.mpr hy) with rfl | hy
          · exact absurd hadded hnot
          · exact hy
        rw [heq] at hs'
        have hleft := (List.mem_filter.mp (hs' haborted y hrest hadded)).2
        exact (of_decide_eq_true hleft).1 hkey

/-- The objects of a process, of either version, keep all URLs they have
registered exactly as long as no object ends that failed to register a URL
which another one has registered at the same queue. -/
theorem registered_iff_harmless (ndebug : Bool) (labels : List Label) :
    (system ndebug).AllStates AllRegistered {} labels ↔
      (system ndebug).AllSteps Harmless {} labels := by
  refine System.allStates_iff_allSteps_of_stronger (Q := Kept) ?_ ?_ ?_ ?_ labels
  · exact fun s hs haborted => (hs haborted).2.registered
  · exact fun s l s' hs hl h => hs.step hl h
  · exact fun s l s' hs h hs' => harmless_of_allRegistered hs h hs'
  · refine fun _ => ⟨⟨?_, ?_, .nil, ?_, ?_⟩, ?_, .nil⟩
    all_goals simp

end Winasio.UrlRegistration
