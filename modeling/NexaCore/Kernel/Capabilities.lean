import NexaCore.Kernel.Basic

/-!
# IPC capability check

The capability vocabulary that channel creation consults
(`nexacore-kernel/src/capabilities.rs:143-202`). Ed25519 verification of a signed token is not
modelled: `SignedTokens.decode` is any function in the place of `decode_and_authenticate_token` at
a fixed provider.
-/

namespace NexaCore

/-- `KernelAction` (`capabilities.rs:145`). -/
inductive KernelAction where
  | ipcSend
  | ipcRecv
  deriving DecidableEq, Repr

/-- `KernelResource` (`capabilities.rs:155`). -/
inductive KernelResource where
  | ipcChannel (id : Nat)
  deriving DecidableEq, Repr

/-- `KernelCapabilityToken` (`capabilities.rs:166`). -/
structure KernelCapabilityToken where
  subject : KernelPrincipal
  action : KernelAction
  resource : KernelResource
  deriving DecidableEq, Repr

/-- `CapabilityVerdict` (`capabilities.rs:177`). -/
inductive CapabilityVerdict where
  | authorised
  | denied
  deriving DecidableEq, Repr

/-- The trait `KernelCapabilityCheck` (`capabilities.rs:194`) as its one method. -/
structure KernelCapabilityCheck where
  verify : KernelCapabilityToken → KernelAction → KernelResource → CapabilityVerdict

/-- `Ed25519CapabilityProvider::verify` (`capabilities.rs:361-382`): per-IPC
shape matching on action and resource. -/
def ed25519CapabilityProvider : KernelCapabilityCheck where
  verify token action resource :=
    if token.action = action ∧ token.resource = resource then .authorised else .denied

/-- `decode_and_authenticate_token` (`capabilities.rs:413-447`) at the provider
in use: the token bytes, the expected action and the current time give the
embedded subject or an error. -/
structure SignedTokens where
  decode : List UInt8 → KernelAction → Nat → KernelResult KernelPrincipal

end NexaCore
