import Winasio.Basic
import Winasio.DynamicBuffer
import Winasio.Transition

/-!
Reading a header of a response into a string. WinHTTP is asked for the size
first; it answers in bytes, and the string is given that many wide characters.
-/

namespace Winasio.StringHeader

open Winasio.Transition

universe u

/-- The arguments of `WinHttpQueryHeaders` besides the handle; `buffer` tells
whether the buffer is not null. -/
structure Query where
  infoLevel : UInt32
  name : Option WString
  buffer : Bool
  bufferLength : UInt32
  index : Option UInt32
  deriving DecidableEq, Repr

structure Answer where
  error : Option Failure
  bufferLength : UInt32
  written : WString := []
  deriving DecidableEq, Repr

/-- The error code and the string of the caller. -/
structure Outputs where
  ec : ErrorCode
  data : WString
  deriving DecidableEq, Repr

def queryContentType : UInt32 := 1
def queryVersion : UInt32 := 18
def queryRawHeadersCrlf : UInt32 := 22
def queryFlagTrailers : UInt32 := 0x02000000

/-- Write over the first characters of a buffer; `none` past its end. -/
def overwrite (buffer written : WString) : Option WString :=
  if written.length ≤ buffer.length then some (written ++ buffer.drop written.length) else none

/-- `data.erase(std::find(data.begin(), data.end(), '\0'), data.end())`. -/
def eraseTailNulls (data : WString) : WString := data.takeWhile (· ≠ 0)

inductive Getter where
  | version
  | contentType
  | allRawCrlf
  | trailers
  deriving DecidableEq, Repr

def Getter.infoLevel : Getter → UInt32
  | .version => queryVersion
  | .contentType => queryContentType
  | .allRawCrlf => queryRawHeadersCrlf
  | .trailers => queryFlagTrailers ||| queryRawHeadersCrlf

/-- A call of a getter, with what its uninitialised `dwSize` holds. -/
structure GetterCall (H : Type u) where
  getter : Getter
  handle : H
  dwSize : UInt32
  deriving DecidableEq, Repr

section

variable {H : Type u} (winHttpQueryHeaders : H → Query → Answer)

structure Queried where
  ec : ErrorCode
  buffer : Option WString
  bufferLength : UInt32

def queryHeaders (h : H) (infoLevel : UInt32) (name buffer : Option WString)
    (bufferLength : UInt32) (index : Option UInt32) (ec : ErrorCode) : Option Queried :=
  let answer := winHttpQueryHeaders h ⟨infoLevel, name, buffer.isSome, bufferLength, index⟩
  let ec := answer.error.elim ec Subtype.val
  match buffer with
  | none => some ⟨ec, none, answer.bufferLength⟩
  | some buffer =>
      (overwrite buffer answer.written).map fun buffer =>
        ⟨ec, some buffer, answer.bufferLength⟩

def getStringHeaderHelper (h : H) (infoLevel dwSize : UInt32) (out : Outputs) :
    Option Outputs := do
  let sized ← queryHeaders winHttpQueryHeaders h infoLevel none none dwSize none out.ec
  if sized.ec.value ≠ ErrorCode.insufficientBuffer then
    return { out with ec := sized.ec }
  let data := resize out.data sized.bufferLength.toNat
  let read ← queryHeaders winHttpQueryHeaders h infoLevel none (some data) sized.bufferLength
    none .success
  return { ec := read.ec, data := eraseTailNulls (read.buffer.getD data) }

def getVersion (h : H) (dwSize : UInt32) (out : Outputs) : Option Outputs :=
  getStringHeaderHelper winHttpQueryHeaders h queryVersion dwSize out

def getContentType (h : H) (dwSize : UInt32) (out : Outputs) : Option Outputs :=
  getStringHeaderHelper winHttpQueryHeaders h queryContentType dwSize out

def getAllRawCrlf (h : H) (dwSize : UInt32) (out : Outputs) : Option Outputs :=
  getStringHeaderHelper winHttpQueryHeaders h queryRawHeadersCrlf dwSize out

def getTrailers (h : H) (dwSize : UInt32) (out : Outputs) : Option Outputs :=
  getStringHeaderHelper winHttpQueryHeaders h (queryFlagTrailers ||| queryRawHeadersCrlf)
    dwSize out

/-- Calls of the getters that share the error code and the string. -/
def system : System Outputs (GetterCall H) where
  step out c :=
    match c.getter with
    | .version => getVersion winHttpQueryHeaders c.handle c.dwSize out
    | .contentType => getContentType winHttpQueryHeaders c.handle c.dwSize out
    | .allRawCrlf => getAllRawCrlf winHttpQueryHeaders c.handle c.dwSize out
    | .trailers => getTrailers winHttpQueryHeaders c.handle c.dwSize out

theorem step_system (out : Outputs) (c : GetterCall H) :
    (system winHttpQueryHeaders).step out c =
      getStringHeaderHelper winHttpQueryHeaders c.handle c.getter.infoLevel c.dwSize out := by
  obtain ⟨getter, h, dwSize⟩ := c
  cases getter <;> rfl

/-- The bytes a buffer for the characters and the null behind them has. -/
def sizeInBytes (w : WString) : UInt32 := .ofNat (2 * (w.length + 1))

/-- What the documentation promises of `WinHttpQueryHeaders` where the headers
of the response are `header`. -/
structure Documented (header : H → UInt32 → Option WString) : Prop where
  size : ∀ h infoLevel w, header h infoLevel = some w → ∀ n,
    ∃ f : Failure, f.val.value = ErrorCode.insufficientBuffer ∧
      (winHttpQueryHeaders h ⟨infoLevel, none, false, n, none⟩).error = some f ∧
      (winHttpQueryHeaders h ⟨infoLevel, none, false, n, none⟩).bufferLength = sizeInBytes w
  fill : ∀ h infoLevel w, header h infoLevel = some w →
    (winHttpQueryHeaders h ⟨infoLevel, none, true, sizeInBytes w, none⟩).error = none ∧
    (winHttpQueryHeaders h ⟨infoLevel, none, true, sizeInBytes w, none⟩).written = w ++ [0]
  missing : ∀ h infoLevel, header h infoLevel = none → ∀ n,
    ∃ f : Failure, f.val.value ≠ ErrorCode.insufficientBuffer ∧
      (winHttpQueryHeaders h ⟨infoLevel, none, false, n, none⟩).error = some f

/-- A header value without nulls whose size fits a `DWORD`. -/
def Fits (w : WString) : Prop := 0 ∉ w ∧ 2 * (w.length + 1) < UInt32.size

/-- The call returns exactly the header, or exactly the error of the query that
did not find it. -/
def Exact (header : H → UInt32 → Option WString) (out : Outputs) (c : GetterCall H) : Prop :=
  match header c.handle c.getter.infoLevel with
  | some w => (system winHttpQueryHeaders).step out c = some { ec := .success, data := w }
  | none => ∃ f : Failure,
      (winHttpQueryHeaders c.handle ⟨c.getter.infoLevel, none, false, c.dwSize, none⟩).error =
        some f ∧
      (system winHttpQueryHeaders).step out c = some { ec := f.val, data := out.data }

end

theorem overwrite_of_le {buffer written : WString} (h : written.length ≤ buffer.length) :
    overwrite buffer written = some (written ++ buffer.drop written.length) :=
  if_pos h

theorem eraseTailNulls_append {w : WString} (hw : 0 ∉ w) (rest : WString) :
    eraseTailNulls (w ++ 0 :: rest) = w := by
  have hne : ∀ c ∈ w, decide (c ≠ 0) = true := by
    intro c hc
    exact decide_eq_true fun hzero => hw (hzero ▸ hc)
  rw [eraseTailNulls, List.takeWhile_append_of_pos hne, List.takeWhile_cons_of_neg (by simp),
    List.append_nil]

section

variable {H : Type u} {winHttpQueryHeaders : H → Query → Answer}
  {header : H → UInt32 → Option WString}

theorem getStringHeaderHelper_of_missing (hquery : Documented winHttpQueryHeaders header)
    {h : H} {infoLevel : UInt32} (hmissing : header h infoLevel = none) (dwSize : UInt32)
    (out : Outputs) :
    ∃ f : Failure,
      (winHttpQueryHeaders h ⟨infoLevel, none, false, dwSize, none⟩).error = some f ∧
      getStringHeaderHelper winHttpQueryHeaders h infoLevel dwSize out =
        some { ec := f.val, data := out.data } := by
  obtain ⟨f, hvalue, herror⟩ := hquery.missing h infoLevel hmissing dwSize
  refine ⟨f, herror, ?_⟩
  simp [getStringHeaderHelper, queryHeaders, herror, hvalue]

/-- The string has twice the room that the header needs, whatever it held
before, and everything behind the first null is erased. -/
theorem getStringHeaderHelper_of_present (hquery : Documented winHttpQueryHeaders header)
    {h : H} {infoLevel : UInt32} {w : WString} (hpresent : header h infoLevel = some w)
    (hw : Fits w) (dwSize : UInt32) (out : Outputs) :
    getStringHeaderHelper winHttpQueryHeaders h infoLevel dwSize out =
      some { ec := .success, data := w } := by
  obtain ⟨f, hvalue, herror, hsize⟩ := hquery.size h infoLevel w hpresent dwSize
  obtain ⟨hok, hwritten⟩ := hquery.fill h infoLevel w hpresent
  have hroom : (w ++ [0]).length ≤ (resize out.data (sizeInBytes w).toNat).length := by
    rw [length_resize, sizeInBytes, UInt32.toNat_ofNat_of_lt' hw.2, List.length_append,
      List.length_singleton]
    omega
  simp [getStringHeaderHelper, queryHeaders, herror, hvalue, hsize, hok, hwritten,
    overwrite_of_le hroom, eraseTailNulls_append hw.1]

theorem exact_of_documented (hheader : ∀ h infoLevel w, header h infoLevel = some w → Fits w)
    (hquery : Documented winHttpQueryHeaders header) (out : Outputs) (c : GetterCall H) :
    Exact winHttpQueryHeaders header out c := by
  rw [Exact, step_system]
  cases hc : header c.handle c.getter.infoLevel with
  | none => exact getStringHeaderHelper_of_missing hquery hc c.dwSize out
  | some w => exact getStringHeaderHelper_of_present hquery hc (hheader _ _ w hc) c.dwSize out

/-- In any sequence of getters, whatever the string and the error code hold
before it, no write leaves the string and every call is exact. -/
theorem string_headers_exact (winHttpQueryHeaders : H → Query → Answer)
    (header : H → UInt32 → Option WString)
    (hheader : ∀ h infoLevel w, header h infoLevel = some w → Fits w)
    (hquery : Documented winHttpQueryHeaders header) (out : Outputs)
    (calls : List (GetterCall H)) :
    (∃ out', (system winHttpQueryHeaders).run out calls = some out') ∧
    (system winHttpQueryHeaders).AllSteps (Exact winHttpQueryHeaders header) out calls := by
  have hexact := exact_of_documented hheader hquery
  refine ⟨System.exists_run (fun out c => ?_) out calls, .of_forall hexact out calls⟩
  have hstep := hexact out c
  rw [Exact] at hstep
  split at hstep
  · exact ⟨_, hstep⟩
  · obtain ⟨f, -, hstep⟩ := hstep
    exact ⟨_, hstep⟩

end

theorem failed_insufficientBuffer : ErrorCode.failed ⟨ErrorCode.insufficientBuffer⟩ = true := rfl

/-- `WinHttpQueryHeaders` on a response with the headers of a table. -/
def queryTable (table : UInt32 → Option WString) (_ : Unit) (q : Query) : Answer :=
  match table q.infoLevel with
  | none => ⟨some ⟨⟨12150⟩, rfl⟩, q.bufferLength, []⟩
  | some w =>
      if q.buffer ∧ sizeInBytes w ≤ q.bufferLength then
        ⟨none, .ofNat (2 * w.length), w ++ [0]⟩
      else ⟨some ⟨⟨ErrorCode.insufficientBuffer⟩, failed_insufficientBuffer⟩, sizeInBytes w, []⟩

theorem documented_queryTable (table : UInt32 → Option WString) :
    Documented (queryTable table) fun _ => table := by
  constructor
  · intro h infoLevel w hw n
    exact ⟨⟨⟨ErrorCode.insufficientBuffer⟩, failed_insufficientBuffer⟩, rfl, by simp [queryTable, hw],
      by simp [queryTable, hw]⟩
  · intro h infoLevel w hw
    simp [queryTable, hw]
  · intro h infoLevel hnone n
    exact ⟨⟨⟨12150⟩, rfl⟩, by decide, by simp [queryTable, hnone]⟩

/-- A response with a version and raw headers, but no content type. -/
def sampleTable (infoLevel : UInt32) : Option WString :=
  if infoLevel = queryVersion then some [49, 46, 49]
  else if infoLevel = queryRawHeadersCrlf then some [97, 58, 32, 98, 13, 10, 13, 10]
  else none

theorem fits_sampleTable {infoLevel : UInt32} {w : WString}
    (hw : sampleTable infoLevel = some w) : Fits w := by
  rw [sampleTable] at hw
  split at hw
  · cases hw
    exact ⟨by decide, by decide⟩
  · split at hw
    · cases hw
      exact ⟨by decide, by decide⟩
    · cases hw

theorem string_headers_exact_sample :
    (system (queryTable sampleTable)).run ⟨⟨12029⟩, [120, 121]⟩
      [⟨.allRawCrlf, (), 7⟩, ⟨.version, (), 0⟩, ⟨.contentType, (), 3⟩] =
        some ⟨⟨12150⟩, [49, 46, 49]⟩ ∧
    (system (queryTable sampleTable)).AllSteps
      (Exact (queryTable sampleTable) fun _ => sampleTable) ⟨⟨12029⟩, [120, 121]⟩
      [⟨.allRawCrlf, (), 7⟩, ⟨.version, (), 0⟩, ⟨.contentType, (), 3⟩] :=
  ⟨by decide, (string_headers_exact (queryTable sampleTable) (fun _ => sampleTable)
    (fun _ _ _ => fits_sampleTable) (documented_queryTable sampleTable) _ _).2⟩

end Winasio.StringHeader
