import Mathlib.Tactic

/-!
# Kernel-wide types

The identifiers, error codes and machine constants shared by the kernel
subsystems (`nexacore-kernel/src/lib.rs`, `scheduling.rs`, `ipc.rs`). A `u64` is
a natural number; an operation that can leave the range of `u64` says so where
it is defined.
-/

namespace NexaCore

def u64Max : Nat := 2 ^ 64 - 1

/-- `KernelError` (`lib.rs:272-289`). -/
inductive KernelError where
  | notYetImplemented
  | capabilityDenied
  | resourceExhausted
  | invalidArgument
  | internal
  deriving DecidableEq, Repr

/-- `KernelResult` (`lib.rs:296`). -/
abbrev KernelResult (α : Type) := Except KernelError α

/-- `TaskId` (`scheduling.rs:122`). -/
structure TaskId where
  val : Nat
  deriving DecidableEq, Repr

/-- `ChannelId` (`ipc.rs:58`). -/
structure ChannelId where
  val : Nat
  deriving DecidableEq, Repr

/-- `KernelPrincipal` (`capabilities.rs:114`): 32 opaque bytes that the kernel
only compares for equality. -/
structure KernelPrincipal where
  bytes : Vector UInt8 32
  deriving DecidableEq, Repr

/-- `KernelPrincipal::ZERO` (`capabilities.rs:136`). -/
def KernelPrincipal.zero : KernelPrincipal := ⟨Vector.replicate 32 0⟩

end NexaCore
