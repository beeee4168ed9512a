import Mathlib
import NexaCore.Kernel.Basic

/-!
# Service manifests
-/

namespace NexaCore.Init

/-- The text of a `ServiceName`. -/
abbrev ServiceName := String

/-- `RestartPolicy` (`manifest.rs:14-23`). -/
inductive RestartPolicy where
  | never
  | onFailure
  | always
deriving DecidableEq, Repr

/-- `should_restart` (`manifest.rs:29-35`). -/
def RestartPolicy.shouldRestart (policy : RestartPolicy) (exitedSuccessfully : Bool) : Bool :=
  match policy with
  | .never => false
  | .always => true
  | .onFailure => !exitedSuccessfully

/-- `Backoff` (`manifest.rs:44-51`). -/
structure Backoff where
  baseMs : Nat
  maxMs : Nat
  factor : Nat
deriving DecidableEq, Repr

/-- The loop of `delay_ms`, with so many steps to come. -/
def Backoff.grow (b : Backoff) : Nat → Nat → Nat
  | 0, delay => min delay b.maxMs
  | steps + 1, delay =>
    let delay := min (delay * b.factor) u64Max
    if b.maxMs ≤ delay then b.maxMs else b.grow steps delay

/-- `delay_ms` (`manifest.rs:71-85`). -/
def Backoff.delayMs (b : Backoff) (restartCount : Nat) : Nat :=
  if restartCount = 0 then 0 else b.grow (restartCount - 1) b.baseMs

/-- `HealthCheck` (`manifest.rs:90-93`). -/
structure HealthCheck where
  intervalMs : Nat
deriving DecidableEq, Repr

/-- `Capability` (`manifest.rs:109`). -/
structure Capability where
  name : String
deriving DecidableEq, Repr

/-- `SocketSpec` (`manifest.rs:130-134`). -/
structure SocketSpec where
  listen : String
deriving DecidableEq, Repr

/-- `ServiceManifest` (`manifest.rs:148-167`). -/
structure ServiceManifest where
  name : ServiceName
  exec : String
  args : List String := []
  requires : List ServiceName := []
  restart : RestartPolicy := .onFailure
  backoff : Backoff := ⟨100, 30000, 2⟩
  health : Option HealthCheck := none
  socket : Option SocketSpec := none
  capabilities : List Capability := []
deriving DecidableEq, Repr

/-- `ManifestError` (`manifest.rs:288-299`). -/
inductive ManifestError where
  | emptyExec
  | selfDependency
  | duplicateDependency
  | invalidBackoff
  | invalidHealthInterval
deriving DecidableEq, Repr

namespace ServiceManifest

/-- The loop of `validate` over the dependencies. -/
def checkRequires (name : ServiceName) : List ServiceName → Except ManifestError Unit
  | [] => .ok ()
  | dep :: later =>
    if dep = name then .error .selfDependency
    else if dep ∈ later then .error .duplicateDependency
    else checkRequires name later

/-- `validate` (`manifest.rs:262-283`). -/
def validate (m : ServiceManifest) : Except ManifestError Unit := do
  if m.exec = "" then throw .emptyExec
  checkRequires m.name m.requires
  if m.backoff.factor = 0 ∨ m.backoff.maxMs < m.backoff.baseMs then throw .invalidBackoff
  if m.health.any (·.intervalMs = 0) then throw .invalidHealthInterval

end ServiceManifest

end NexaCore.Init
