import Winasio.Basic

/-!
The request a client describes: `payload` with its accept types and
additional headers, and the arguments `async_exec` makes of it.
-/

namespace Winasio.ClientPayload

/-- A `const wchar_t*` to the string at an index of the strings an object
owns. -/
structure StringPtr where
  owner : Nat
  index : Nat
  deriving DecidableEq, Repr

/-- `header::accept_types`; `owner` is the identity of the strings it owns. -/
structure AcceptTypes where
  owner : Nat
  output : List (Option StringPtr) := []
  data : List WString
  deriving DecidableEq, Repr

/-- `get` appends to the pointers it has already handed out. -/
def AcceptTypes.get (a : AcceptTypes) : AcceptTypes × Option (List (Option StringPtr)) :=
  if a.data.isEmpty then (a, none)
  else
    let output := a.output ++
      (List.range a.data.length).map (fun i => some ⟨a.owner, i⟩) ++ [none]
    ({ a with output }, some output)

structure Headers where
  data : WString := []
  deriving DecidableEq, Repr

namespace Headers

def crlf : WString := [13, 10]
def separator : WString := [58, 32]

def add (h : Headers) (key val : WString) : Headers :=
  { data := (if h.data.isEmpty then h.data else h.data ++ crlf) ++ key ++ separator ++ val }

/-- `WINHTTP_NO_ADDITIONAL_HEADERS`, the null pointer, when there are none. -/
def get (h : Headers) : Option WString :=
  if h.data.isEmpty then none else some h.data

def size (h : Headers) : UInt32 := .ofNat h.data.length

end Headers

structure Payload where
  secure : Bool
  method : WString
  path : Option WString := none
  accept : Option AcceptTypes := none
  header : Option Headers := none
  body : Option Bytes := none
  insecureSkipVerify : Bool := false
  deriving DecidableEq, Repr

def flagSecure : UInt32 := 0x00800000

def optionSecurityFlags : UInt32 := 31

def ignoreUnknownCa : UInt32 := 0x00000100
def ignoreCertWrongUsage : UInt32 := 0x00000200
def ignoreCertCnInvalid : UInt32 := 0x00001000
def ignoreCertDateInvalid : UInt32 := 0x00002000

namespace Payload

def flags (p : Payload) : UInt32 := if p.secure then flagSecure else 0

def skipsVerify (p : Payload) : Bool := p.secure && p.insecureSkipVerify

def securityFlags : UInt32 :=
  ignoreCertCnInvalid ||| ignoreCertDateInvalid ||| ignoreUnknownCa ||| ignoreCertWrongUsage

def headersArg (p : Payload) : Option WString := p.header.bind Headers.get

def headersLength (p : Payload) : UInt32 := (p.header.map Headers.size).getD 0

/-- The null pointer is `WINHTTP_NO_REQUEST_DATA`. -/
def optionalArg (p : Payload) : Option Bytes := p.body

def optionalLength (p : Payload) : UInt32 := (p.body.map fun b => .ofNat b.length).getD 0

end Payload

end Winasio.ClientPayload
