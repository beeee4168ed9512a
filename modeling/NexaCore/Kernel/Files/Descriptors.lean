import NexaCore.Kernel.Basic
import Std.Data.ExtTreeMap

/-!
# File descriptors

Embedding of `nexacore-kernel/src/fd.rs`: the table of the open descriptors of a process.
-/

namespace NexaCore.Files

open Std

def u32Max : Nat := 2 ^ 32 - 1

/-- `FdFlags` (`fd.rs:79-87`). -/
structure FdFlags where
  closeOnExec : Bool
  nonBlock : Bool
  deriving DecidableEq, Repr

def FdFlags.default : FdFlags := ⟨false, false⟩

/-- `OpenFlags` (`fd.rs:114`). -/
structure OpenFlags where
  bits : Nat
  deriving DecidableEq, Repr

/-- `has_append` (`fd.rs:163-165`). -/
def OpenFlags.hasAppend (flags : OpenFlags) : Bool := flags.bits &&& 0x400 != 0

/-- `FdKind` (`fd.rs:180-216`). -/
inductive FdKind where
  | console (readable writable : Bool)
  | pipe (pipeId : Nat) (isReadEnd : Bool)
  | fsFile (inode offset : Nat) (flags : OpenFlags)
  | ipcChannel (id : Nat)
  deriving DecidableEq, Repr

/-- `FileDescriptor` (`fd.rs:239-244`). -/
structure FileDescriptor where
  kind : FdKind
  flags : FdFlags
  deriving DecidableEq, Repr

/-- `FileDescriptorTable` (`fd.rs:276-282`). -/
structure FileDescriptorTable where
  entries : ExtTreeMap Nat FileDescriptor
  nextFd : Nat

namespace FileDescriptorTable

/-- `new_with_stdio` (`fd.rs:331-369`). -/
def newWithStdio : FileDescriptorTable where
  entries := (((∅ : ExtTreeMap Nat FileDescriptor).insert 0
    ⟨.console true false, .default⟩).insert 1
    ⟨.console false true, .default⟩).insert 2 ⟨.console false true, .default⟩
  nextFd := 3

/-- The loop of `open` (`fd.rs:409-426`): the first vacant number from `candidate` on. It
stops at `u32::MAX`, so it makes no more turns than there are numbers. -/
def firstVacant (entries : ExtTreeMap Nat FileDescriptor) : Nat → Nat → Option Nat
  | 0, _ => none
  | turns + 1, candidate =>
      if entries.contains candidate then
        if candidate < u32Max then firstVacant entries turns (candidate + 1) else none
      else some candidate

/-- `open` (`fd.rs:403-425`). -/
def «open» (t : FileDescriptorTable) (descriptor : FileDescriptor) :
    KernelResult (Nat × FileDescriptorTable) :=
  match firstVacant t.entries (2 ^ 32) t.nextFd with
  | none => .error .resourceExhausted
  | some candidate =>
      .ok (candidate, ⟨t.entries.insert candidate descriptor, min (candidate + 1) u32Max⟩)

/-- `close` (`fd.rs:443-448`). -/
def close (t : FileDescriptorTable) (fd : Nat) : KernelResult FileDescriptorTable :=
  if t.entries.contains fd then .ok { t with entries := t.entries.erase fd }
  else .error .invalidArgument

/-- `get` (`fd.rs:463-465`). -/
def get (t : FileDescriptorTable) (fd : Nat) : Option FileDescriptor := t.entries[fd]?

/-- `dup` (`fd.rs:510-525`). -/
def dup (t : FileDescriptorTable) (oldFd : Nat) : KernelResult (Nat × FileDescriptorTable) :=
  match t.get oldFd with
  | none => .error .invalidArgument
  | some old => t.open ⟨old.kind, .default⟩

/-- `dup2` (`fd.rs:550-582`). -/
def dup2 (t : FileDescriptorTable) (oldFd newFd : Nat) : KernelResult (Nat × FileDescriptorTable) :=
  if oldFd = newFd then
    if t.entries.contains oldFd then .ok (newFd, t) else .error .invalidArgument
  else
    match t.get oldFd with
    | none => .error .invalidArgument
    | some old =>
        .ok (newFd, { t with
          entries := (t.entries.erase newFd).insert newFd ⟨old.kind, .default⟩ })

end FileDescriptorTable

end NexaCore.Files
