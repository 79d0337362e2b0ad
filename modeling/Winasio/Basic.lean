import Mathlib.Data.List.Basic

/-!
Strings, and `boost::system::error_code` in the system category, the only
category the library assigns, with the Win32 codes it tests by value.
-/

namespace Winasio

/-- A `std::wstring`: UTF-16 code units. -/
abbrev WString : Type := List UInt16

instance : Trans (LT.lt : WString → WString → Prop) LT.lt LT.lt := ⟨List.lt_trans⟩

/-- A `std::string` or a block of bytes. -/
abbrev Bytes : Type := List UInt8

/-- An error code is its value; the default value is no error. -/
structure ErrorCode where
  value : UInt32 := 0
  deriving DecidableEq, Repr, Inhabited

namespace ErrorCode

def failed (ec : ErrorCode) : Bool := ec.value ≠ 0

def success : ErrorCode := {}

def handleEof : UInt32 := 38
def insufficientBuffer : UInt32 := 122
def moreData : UInt32 := 234
def ioPending : UInt32 := 997

@[simp] theorem failed_success : success.failed = false := rfl

theorem failed_iff {ec : ErrorCode} : ec.failed = true ↔ ec.value ≠ 0 := by
  simp [failed]

end ErrorCode

/-- An error code a failing system call leaves in `GetLastError`. -/
abbrev Failure : Type := { ec : ErrorCode // ec.failed = true }

namespace Failure

@[simp] theorem failed (f : Failure) : f.val.failed = true := f.property

end Failure

end Winasio
