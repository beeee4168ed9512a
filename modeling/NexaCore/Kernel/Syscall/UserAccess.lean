import NexaCore.Kernel.Basic

/-!
# User-memory access

Embedding of the checked copies of `nexacore-kernel/src/bare_metal/uaccess.rs`.
The user half of the caller's address space is an input of each call: its bytes
and the two page-table probes that `user_range_accessible` makes.
-/

namespace NexaCore.Syscall

/-- `USER_HALF_END` (`usermode.rs:44`). -/
def userHalfEnd : Nat := 2 ^ 47

/-- The user half as a system call finds it: `user_range_accessible`
(`uaccess.rs:84-105`) without and with `write`, and the bytes. -/
structure UserMemory where
  readable : Nat → Nat → Bool
  writable : Nat → Nat → Bool
  byte : Nat → UInt8

/-- `user_range_ok` (`uaccess.rs:57-65`). -/
def userRangeOk (ptr len : Nat) : Bool :=
  if len = 0 then true
  else if u64Max < ptr + len then false
  else ptr + len ≤ userHalfEnd

/-- `copy_from_user` (`uaccess.rs:156-177`), with the bytes copied. -/
def copyFromUser (mem : UserMemory) (ptr len : Nat) : Option (List UInt8) :=
  if !userRangeOk ptr len then none
  else if len = 0 then some []
  else if !mem.readable ptr len then none
  else some ((List.range len).map fun i => mem.byte (ptr + i))

/-- `copy_from_user_vec` (`uaccess.rs:219-230`). -/
def copyFromUserVec (mem : UserMemory) (ptr len max : Nat) : Option (List UInt8) :=
  if len = 0 ∨ max < len then none else copyFromUser mem ptr len

/-- `copy_to_user` (`uaccess.rs:189-210`): whether the bytes were copied. The user's
buffer is no part of the kernel state. -/
def copyToUser (mem : UserMemory) (ptr : Nat) (src : List UInt8) : Bool :=
  if !userRangeOk ptr src.length then false
  else if src.length = 0 then true
  else mem.writable ptr src.length

end NexaCore.Syscall
