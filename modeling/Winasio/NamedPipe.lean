import Winasio.QueueHandle

/-!
`named_pipe`: how a pipe object gets a handle, as a server and as a client.
-/

namespace Winasio.NamedPipe

open Winasio.QueueHandle (Overlapped)

def errorPipeBusy : UInt32 := 231
def errorPipeConnected : UInt32 := 535

structure PipeHandle where
  closed : Bool := false
  messageRead : Bool := false
  deriving DecidableEq, Repr

/-- All handles that were ever opened; a handle is its place in the list. -/
abbrev Handles : Type := List PipeHandle

abbrev Handle : Type := Nat

namespace Handles

def opened (handles : Handles) (messageRead : Bool) : Handles := handles.concat { messageRead }

def close (handles : Handles) (h : Handle) : Handles :=
  handles.modify h fun x => { x with closed := true }

/-- `PIPE_READMODE_MESSAGE`. -/
def setMessageRead (handles : Handles) (h : Handle) : Handles :=
  handles.modify h fun x => { x with messageRead := true }

@[simp] theorem length_opened (handles : Handles) (messageRead : Bool) :
    (handles.opened messageRead).length = handles.length + 1 := List.length_concat

@[simp] theorem length_close (handles : Handles) (h : Handle) :
    (handles.close h).length = handles.length := List.length_modify _ _ _

@[simp] theorem length_setMessageRead (handles : Handles) (h : Handle) :
    (handles.setMessageRead h).length = handles.length := List.length_modify _ _ _

end Handles

/-- The outcomes of the calls of `client_connect`, with what `GetLastError` says
where they fail. -/
inductive Reply where
  | createFile (error : Option Failure)
  | waitNamedPipe (error : Option Failure)
  | setNamedPipeHandleState (error : Option Failure)
  deriving DecidableEq

def Reply.error : Reply → Option Failure
  | .createFile error | .waitNamedPipe error | .setNamedPipeHandleState error => error

/-- The error variable, the handle of the pipe, if it is open, and all
handles. -/
structure Connection where
  ec : ErrorCode
  pipe : Option Handle
  handles : Handles
  deriving DecidableEq, Repr

/-- `client_connect` with the outcomes of its calls in their order; it returns
those that are left over. `pipe` is `pipe_ret`. -/
def clientConnect : List Reply → Handles → ErrorCode → Option (Connection × List Reply)
  | .createFile none :: .setNamedPipeHandleState none :: rest, handles, ec =>
      let hPipe := handles.length
      some (⟨ec, some hPipe, (handles.opened false).setMessageRead hPipe⟩, rest)
  | .createFile none :: .setNamedPipeHandleState (some f) :: rest, handles, _ =>
      some (⟨f.val, none, handles.opened false⟩, rest)
  | .createFile (some f) :: rest, handles, ec =>
      if f.val.value ≠ errorPipeBusy then some (⟨f.val, none, handles⟩, rest)
      else
        match rest with
        | .waitNamedPipe none :: rest => clientConnect rest handles ec
        | .waitNamedPipe (some f) :: rest => some (⟨f.val, none, handles⟩, rest)
        | _ => none
  | _, _, _ => none

def connect (script : List Reply) (handles : Handles) (pipe : Option Handle)
    (ec : ErrorCode) : Option (Connection × List Reply) :=
  let handles :=
    match pipe with
    | some h => handles.close h
    | none => handles
  (clientConnect script handles ec).map fun (c, rest) =>
    (if c.ec.failed then { c with pipe := none } else c, rest)

/-- What comes of `server_create`: the error of `CreateNamedPipe`, or the new
handle. `assign` throws if the pipe is open, and then nothing holds the new
handle. -/
inductive Created where
  | failed (f : Failure)
  | threw (handles : Handles)
  | assigned (handles : Handles) (hPipe : Handle)
  deriving DecidableEq

def serverCreate (handles : Handles) (pipe : Option Handle) (error : Option Failure) :
    Created :=
  match error, pipe with
  | some f, _ => .failed f
  | none, some _ => .threw (handles.opened true)
  | none, none => .assigned (handles.opened true) handles.length

/-- `async_server_connect` behind `ConnectNamedPipe`, with what that returned and
what `GetLastError` says. -/
def asyncServerConnect (fConnected : Bool) (lastError : UInt32) : Overlapped :=
  if fConnected then .completed ⟨lastError⟩ 0
  else if lastError = ErrorCode.ioPending then .released
  else if lastError = errorPipeConnected then .completed .success 0
  else .completed ⟨lastError⟩ 0

def posted : Overlapped → Option ErrorCode
  | .released => none
  | .completed ec _ => some ec

/-- What a pending `ConnectNamedPipe` is completed with. -/
def completion : Option Failure → ErrorCode
  | none => .success
  | some f => f.val

theorem getElem?_opened_of_ne {handles : Handles} {messageRead : Bool} {h : Handle}
    (hne : h ≠ handles.length) : (handles.opened messageRead)[h]? = handles[h]? := by
  rw [Handles.opened, List.concat_eq_append, List.getElem?_append]
  split
  · rfl
  · next hle =>
      have hlt : handles.length < h := Nat.lt_of_le_of_ne (Nat.le_of_not_lt hle) (Ne.symm hne)
      rw [List.getElem?_eq_none (Nat.sub_pos_of_lt hlt), List.getElem?_eq_none (Nat.le_of_lt hlt)]

end Winasio.NamedPipe
