import Winasio.Basic
import Winasio.Transition

/-!
`url_component`: the lengths in `URL_COMPONENTS` are the capacities of the
buffers before a call of `WinHttpCrackUrl` and the lengths of the components
after it.
-/

namespace Winasio.UrlComponent

open Winasio.Transition

/-- The components for which the class has an array. -/
inductive Part where
  | host
  | path
  | scheme
  | query
  deriving DecidableEq, Repr

def parts : List Part := [.host, .path, .scheme, .query]

theorem mem_parts (part : Part) : part ∈ parts := by
  cases part <;> decide

instance (p : Part → Prop) [DecidablePred p] : Decidable (∀ part, p part) :=
  decidable_of_iff (∀ part ∈ parts, p part)
    ⟨fun h part => h part (mem_parts part), fun h part _ => h part⟩

/-- The sizes of `szHost_`, `szPath_`, `szScheme_` and `szQuery_`. -/
def capacity : Part → Nat
  | .host => 128
  | .path => 128
  | .scheme => 64
  | .query => 128

abbrev Arrays : Type := (part : Part) → Vector UInt16 (capacity part)

structure UrlComponents where
  lengths : Part → Nat
  arrays : Arrays
  nScheme : Nat := 0
  nPort : UInt16 := 0

structure Request where
  pwszUrl : WString
  dwUrlLength : UInt32
  dwFlags : UInt32
  deriving DecidableEq, Repr

structure Url where
  text : Part → WString
  nScheme : Nat
  nPort : UInt16

/-- `WinHttpCrackUrl`: `GetLastError` where it returns false, and the structure it
leaves. -/
abbrev CrackUrl : Type := Request → UrlComponents → Option Failure × UrlComponents

/-- The constructor leaves the arrays as they are. -/
def construct (arrays : Arrays) : UrlComponents := { lengths := capacity, arrays }

namespace UrlComponents

def get (uc : UrlComponents) (part : Part) : WString :=
  (uc.arrays part).toList.take (uc.lengths part)

def getHostname (uc : UrlComponents) : WString := uc.get .host
def getScheme (uc : UrlComponents) : WString := uc.get .scheme
def getPath (uc : UrlComponents) : WString := uc.get .path
def getQuery (uc : UrlComponents) : WString := uc.get .query

def url (uc : UrlComponents) : Url where
  text
    | .host => uc.getHostname
    | .path => uc.getPath
    | .scheme => uc.getScheme
    | .query => uc.getQuery
  nScheme := uc.nScheme
  nPort := uc.nPort

theorem url_text (uc : UrlComponents) (part : Part) : uc.url.text part = uc.get part := by
  cases part <;> rfl

end UrlComponents

section Crack

variable (winHttpCrackUrl : CrackUrl)

/-- On success `ec` stays what it was. -/
def crack (uc : UrlComponents) (request : Request) (ec : ErrorCode) : ErrorCode × UrlComponents :=
  match winHttpCrackUrl request uc with
  | (none, uc) => (ec, uc)
  | (some failure, uc) => (failure.val, uc)

def crackString (uc : UrlComponents) (url : WString) (ec : ErrorCode) :
    ErrorCode × UrlComponents :=
  crack winHttpCrackUrl uc ⟨url, .ofNat url.length, 0⟩ ec

/-- `ec` after a call, and if the call has succeeded what the getters return. -/
def outcome (uc : UrlComponents) (request : Request) (ec : ErrorCode) : ErrorCode × Option Url :=
  let result := crack winHttpCrackUrl uc request ec
  (result.1, if (winHttpCrackUrl request uc).1 = none then some result.2.url else none)

/-- One object and any calls of `crack`, each with the `ec` of its caller. -/
def system : System UrlComponents (Request × ErrorCode) :=
  ⟨fun uc call => some (crack winHttpCrackUrl uc call.1 call.2).2⟩

@[simp] theorem crack_snd (uc : UrlComponents) (request : Request) (ec : ErrorCode) :
    (crack winHttpCrackUrl uc request ec).2 = (winHttpCrackUrl request uc).2 := by
  rw [crack]
  split <;> simp [*]

theorem system_step {uc uc' : UrlComponents} {call : Request × ErrorCode}
    (h : (system winHttpCrackUrl).step uc call = some uc') :
    uc' = (winHttpCrackUrl call.1 uc).2 := by
  rw [← crack_snd]
  exact (Option.some.inj h).symm

def AtCapacity (uc : UrlComponents) : Prop := ∀ part, uc.lengths part = capacity part

/-- The calls of one object end with `request`: this one comes out as on a fresh
object, and for all of them the lengths are right. -/
structure Reusable (arrays fresh : Arrays) (calls : List (Request × ErrorCode)) (request : Request)
    (ec : ErrorCode) : Prop where
  outcome : ∀ uc, (system winHttpCrackUrl).run (construct arrays) calls = some uc →
    outcome winHttpCrackUrl uc request ec = outcome winHttpCrackUrl (construct fresh) request ec
  lengths : (system winHttpCrackUrl).AllStates AtCapacity (construct arrays) calls

/-- A component fits a buffer together with the null that ends it. -/
def Fits (url : Url) (lengths : Part → Nat) : Prop := ∀ part, (url.text part).length < lengths part

instance (url : Url) (lengths : Part → Nat) : Decidable (Fits url lengths) :=
  inferInstanceAs (Decidable (∀ _, _))

/-- What is assumed of `WinHttpCrackUrl`: whether a URL is well formed, and of
what it consists, is a matter of the URL alone. -/
structure CracksUrls (parse : Request → Except Failure Url) : Prop where
  cracked : ∀ request uc url, (∀ part, uc.lengths part ≤ capacity part) →
    parse request = .ok url → Fits url uc.lengths →
      (winHttpCrackUrl request uc).1 = none ∧
        (∀ part, (winHttpCrackUrl request uc).2.lengths part = (url.text part).length) ∧
        (winHttpCrackUrl request uc).2.url = url
  insufficientBuffer : ∀ request uc url, (∀ part, uc.lengths part ≤ capacity part) →
    parse request = .ok url → ¬ Fits url uc.lengths →
      (winHttpCrackUrl request uc).1 = some ⟨⟨ErrorCode.insufficientBuffer⟩, rfl⟩
  refused : ∀ request uc failure, parse request = .error failure →
    (winHttpCrackUrl request uc).1 = some failure
  determined : ∀ request uc uc', (∀ part, uc.lengths part = uc'.lengths part) →
    ∀ part, (winHttpCrackUrl request uc).2.lengths part =
      (winHttpCrackUrl request uc').2.lengths part

/-- A URL that is malformed or has a component that is too long, and a failing
call that does not touch the lengths. -/
structure Harmless (parse : Request → Except Failure Url) (request : Request) : Prop where
  refused : ∀ url, parse request = .ok url → ¬ Fits url capacity
  untouched : ∀ uc, AtCapacity uc → AtCapacity (winHttpCrackUrl request uc).2

end Crack

section Lemmas

variable {winHttpCrackUrl : CrackUrl} {parse : Request → Except Failure Url}
  {uc uc' : UrlComponents} {request : Request}

theorem outcome_of_none (h : (winHttpCrackUrl request uc).1 = none) (ec : ErrorCode) :
    outcome winHttpCrackUrl uc request ec = (ec, some (winHttpCrackUrl request uc).2.url) := by
  have hreturn : winHttpCrackUrl request uc = (none, (winHttpCrackUrl request uc).2) :=
    Prod.ext h rfl
  simp only [outcome, crack_snd, h, if_true]
  rw [crack, hreturn]

theorem outcome_of_some {failure : Failure} (h : (winHttpCrackUrl request uc).1 = some failure)
    (ec : ErrorCode) : outcome winHttpCrackUrl uc request ec = (failure.val, none) := by
  have hreturn : winHttpCrackUrl request uc = (some failure, (winHttpCrackUrl request uc).2) :=
    Prod.ext h rfl
  simp only [outcome, h, reduceCtorEq, if_false]
  rw [crack, hreturn]

def expected (parse : Request → Except Failure Url) (request : Request) (ec : ErrorCode) :
    ErrorCode × Option Url :=
  match parse request with
  | .error failure => (failure.val, none)
  | .ok url =>
      if Fits url capacity then (ec, some url) else (⟨ErrorCode.insufficientBuffer⟩, none)

theorem AtCapacity.le (h : AtCapacity uc) (part : Part) : uc.lengths part ≤ capacity part :=
  Nat.le_of_eq (h part)

theorem AtCapacity.fits_iff (h : AtCapacity uc) (url : Url) :
    Fits url uc.lengths ↔ Fits url capacity :=
  forall_congr' fun part => by rw [h part]

variable (hspec : CracksUrls winHttpCrackUrl parse)

include hspec

theorem outcome_of_atCapacity (huc : AtCapacity uc) (ec : ErrorCode) :
    outcome winHttpCrackUrl uc request ec = expected parse request ec := by
  unfold expected
  cases hparse : parse request with
  | error failure => exact outcome_of_some (hspec.refused request uc failure hparse) ec
  | ok url =>
      dsimp only
      split
      · next hfits =>
          obtain ⟨hnone, -, hurl⟩ :=
            hspec.cracked request uc url huc.le hparse ((huc.fits_iff url).mpr hfits)
          rw [outcome_of_none hnone, hurl]
      · next hfits =>
          exact outcome_of_some (hspec.insufficientBuffer request uc url huc.le hparse
            (mt (huc.fits_iff url).mp hfits)) ec

/-- The capacities survive a call exactly if it is harmless; after a success they
are gone. -/
theorem atCapacity_iff_harmless (huc : AtCapacity uc) :
    AtCapacity (winHttpCrackUrl request uc).2 ↔ Harmless winHttpCrackUrl parse request := by
  constructor
  · intro h
    constructor
    · intro url hparse hfits
      obtain ⟨-, hlengths, -⟩ :=
        hspec.cracked request uc url huc.le hparse ((huc.fits_iff url).mpr hfits)
      exact Nat.ne_of_lt (hfits .host) ((hlengths .host).symm.trans (h .host))
    · intro uc' huc' part
      rw [hspec.determined request uc' uc fun part => (huc' part).trans (huc part).symm]
      exact h part
  · intro h
    exact h.untouched uc huc

/-- A URL that was cracked is refused the next time: its components do not fit the
lengths they have themselves. -/
theorem outcome_again {url : Url} (huc : AtCapacity uc) (hparse : parse request = .ok url)
    (hfits : Fits url capacity) (ec : ErrorCode) :
    outcome winHttpCrackUrl (winHttpCrackUrl request uc).2 request ec =
      (⟨ErrorCode.insufficientBuffer⟩, none) := by
  obtain ⟨-, hlengths, -⟩ :=
    hspec.cracked request uc url huc.le hparse ((huc.fits_iff url).mpr hfits)
  have hsome : (winHttpCrackUrl request (winHttpCrackUrl request uc).2).1 =
      some ⟨⟨ErrorCode.insufficientBuffer⟩, rfl⟩ := by
    apply hspec.insufficientBuffer request _ url _ hparse
    · intro h
      exact Nat.lt_irrefl _ (hlengths .host ▸ h .host)
    · intro part
      rw [hlengths part]
      exact Nat.le_of_lt (hfits part)
  exact outcome_of_some hsome ec

end Lemmas

theorem atCapacity_construct (arrays : Arrays) : AtCapacity (construct arrays) := fun _ => rfl

/-- An object can be reused exactly after calls that were harmless; no call of them
may have succeeded. -/
theorem reusable_iff {winHttpCrackUrl : CrackUrl} {parse : Request → Except Failure Url}
    (hspec : CracksUrls winHttpCrackUrl parse) (arrays fresh : Arrays)
    (calls : List (Request × ErrorCode)) (request : Request) (ec : ErrorCode) :
    Reusable winHttpCrackUrl arrays fresh calls request ec ↔
      ∀ call ∈ calls, Harmless winHttpCrackUrl parse call.1 := by
  have hsteps : (system winHttpCrackUrl).AllStates AtCapacity (construct arrays) calls ↔
      ∀ call ∈ calls, Harmless winHttpCrackUrl parse call.1 := by
    rw [← System.allSteps_iff_forall (T := system winHttpCrackUrl) (s := construct arrays)
      (C := fun call => Harmless winHttpCrackUrl parse call.1) fun uc call => ⟨_, rfl⟩]
    apply System.allStates_iff_allSteps (I := fun _ => True) (fun _ _ _ _ _ => trivial) _ trivial
      (atCapacity_construct arrays)
    rintro uc call uc' - huc h
    rw [system_step winHttpCrackUrl h]
    exact atCapacity_iff_harmless hspec huc
  constructor
  · intro h
    exact hsteps.mp h.lengths
  · intro h
    have hlengths := hsteps.mpr h
    refine ⟨fun uc hrun => ?_, hlengths⟩
    rw [outcome_of_atCapacity hspec (hlengths.last hrun),
      outcome_of_atCapacity hspec (atCapacity_construct fresh)]

section CrackFrom

variable (parse : Request → Except Failure Url)

def write {n : Nat} (array : Vector UInt16 n) (text : WString) : Vector UInt16 n :=
  .ofFn fun i => text[i.val]?.getD array[i]

/-- A `WinHttpCrackUrl` that leaves the structure alone where it fails. -/
def crackFrom : CrackUrl := fun request uc =>
  match parse request with
  | .error failure => (some failure, uc)
  | .ok url =>
      if Fits url uc.lengths then
        (none,
          { lengths := fun part => (url.text part).length
            arrays := fun part => write (uc.arrays part) (url.text part)
            nScheme := url.nScheme
            nPort := url.nPort })
      else (some ⟨⟨ErrorCode.insufficientBuffer⟩, rfl⟩, uc)

theorem take_write {n : Nat} (array : Vector UInt16 n) {text : WString} (h : text.length ≤ n) :
    (write array text).toList.take text.length = text := by
  apply List.ext_getElem
  · rw [List.length_take, Vector.length_toList]
    exact Nat.min_eq_left h
  · intro i hi hi'
    simp [write, hi']

theorem url_ext {url url' : Url} (htext : ∀ part, url.text part = url'.text part)
    (hscheme : url.nScheme = url'.nScheme) (hport : url.nPort = url'.nPort) : url = url' := by
  cases url
  cases url'
  cases hscheme
  cases hport
  cases funext htext
  rfl

theorem cracksUrls_crackFrom : CracksUrls (crackFrom parse) parse := by
  constructor
  · intro request uc url hle hparse hfits
    simp only [crackFrom, hparse, if_pos hfits]
    refine ⟨trivial, fun _ => trivial, url_ext (fun part => ?_) rfl rfl⟩
    rw [UrlComponents.url_text]
    exact take_write _ (Nat.le_trans (Nat.le_of_lt (hfits part)) (hle part))
  · intro request uc url hle hparse hfits
    rw [crackFrom, hparse]
    exact congrArg Prod.fst (if_neg hfits)
  · intro request uc failure hparse
    rw [crackFrom, hparse]
  · intro request uc uc' hlengths part
    have hfits (url : Url) : Fits url uc.lengths ↔ Fits url uc'.lengths :=
      forall_congr' fun part => by rw [hlengths part]
    rw [crackFrom, crackFrom]
    cases parse request with
    | error failure => exact hlengths part
    | ok url =>
        simp only [hfits url]
        split
        · rfl
        · exact hlengths part

theorem harmless_of_error {request : Request} {failure : Failure}
    (hparse : parse request = .error failure) : Harmless (crackFrom parse) parse request := by
  constructor
  · intro url hurl
    cases hparse.symm.trans hurl
  · intro uc huc
    rw [crackFrom, hparse]
    exact huc

end CrackFrom

def wide (text : String) : WString := text.toList.map fun c => .ofNat c.toNat

def personRequest : Request where
  pwszUrl := wide "https://www.google.com:12345/person?name=john"
  dwUrlLength := 45
  dwFlags := 0

def personUrl : Url where
  text
    | .host => wide "www.google.com"
    | .path => wide "/person"
    | .scheme => wide "https"
    | .query => wide "?name=john"
  nScheme := 2
  nPort := 12345

/-- The scheme of an empty URL is not recognised
(`ERROR_WINHTTP_UNRECOGNIZED_SCHEME`), and any other URL is taken for one like
it. -/
def parsePerson (request : Request) : Except Failure Url :=
  if request = personRequest then .ok personUrl else .error ⟨⟨12006⟩, rfl⟩

theorem personUrl_fits : Fits personUrl capacity := by decide

/-- An empty URL is refused before this one is cracked. -/
theorem reusable_iff_person :
    Reusable (crackFrom parsePerson) (fun _ => .replicate _ 0) (fun _ => .replicate _ 0)
      [(⟨[], 0, 0⟩, {})] personRequest {} := by
  apply (reusable_iff (cracksUrls_crackFrom parsePerson) _ _ _ _ _).mpr
  rintro call hcall
  cases List.mem_singleton.mp hcall
  exact harmless_of_error parsePerson (if_neg (by decide))

/-- The same URL is cracked twice. -/
theorem not_reusable_twice :
    ¬ ∀ (arrays fresh : Arrays) (calls : List (Request × ErrorCode)) (request : Request)
      (ec : ErrorCode), Reusable (crackFrom parsePerson) arrays fresh calls request ec := by
  intro h
  have hspec := cracksUrls_crackFrom parsePerson
  have hparse : parsePerson personRequest = .ok personUrl := if_pos rfl
  have huc := atCapacity_construct fun _ => .replicate _ 0
  have houtcome := (h (fun _ => .replicate _ 0) (fun _ => .replicate _ 0) [(personRequest, {})]
    personRequest {}).outcome _ rfl
  rw [crack_snd, outcome_again hspec huc hparse personUrl_fits,
    outcome_of_none (hspec.cracked _ _ _ huc.le hparse personUrl_fits).1] at houtcome
  cases congrArg Prod.snd houtcome

end Winasio.UrlComponent
