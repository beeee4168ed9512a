import Mathlib.Tactic

/-!
# Scopes

Embedding of `nexacore-capability/src/scope.rs`: the action, the resource, the time window
and the caveats of a capability, and when one scope is a subset of another. A string is
read as the list of its characters.
-/

namespace NexaCore.Capability

/-- `Action` (`scope.rs:37-119`). -/
inductive Action where
  | read | write | append | execute | delete | connect | listen | modelInfer | modelLoad
  | agentSpawn | agentSend | ipcSend | ipcRecv | mmioMap | dmaMap | irqAttach | pciConfigRead
  | pciConfigWrite | driverLoad | driverUnload | teeProbe | displayMap
  deriving DecidableEq, Repr

/-- `NodeId`, a hash (`nexacore-types/src/identity.rs:154`). -/
structure NodeId where
  bytes : Vector UInt8 32
  deriving DecidableEq, Repr

/-- `ModelId`, a hash (`identity.rs:216`). -/
structure ModelId where
  bytes : Vector UInt8 32
  deriving DecidableEq, Repr

/-- `AgentId`, a UUID (`identity.rs:292`). -/
structure AgentId where
  uuid : Vector UInt8 16
  deriving DecidableEq, Repr

/-- `CapabilityId`, a UUID (`identity.rs:360`). -/
structure CapabilityId where
  uuid : Vector UInt8 16
  deriving DecidableEq, Repr

/-- `Resource` (`scope.rs:133-202`). -/
inductive Resource where
  | any
  | filesystem (path : String)
  | network (endpoint : String)
  | model (id : ModelId)
  | agent (id : AgentId)
  | node (id : NodeId)
  | ipcChannel (id : UInt64)
  | pciDevice (segment : UInt16) (bus device function : UInt8)
  | mmioRegion (physBase len : UInt64)
  | dmaWindow (iovaBase len : UInt64)
  | irqLine (line : UInt16)
  | framebuffer (physBase len : UInt64)
  deriving DecidableEq, Repr

/-! ## Strings -/

/-- `str::strip_suffix`. -/
def stripSuffix (s suffix : List Char) : Option (List Char) :=
  if suffix.isSuffixOf s then some (s.take (s.length - suffix.length)) else none

/-- `str::rsplit_once` at a character: what is before and after its last occurrence. -/
def rsplitOnce (c : Char) : List Char → Option (List Char × List Char)
  | [] => none
  | x :: xs =>
      match rsplitOnce c xs with
      | some (before, after) => some (x :: before, after)
      | none => if x = c then some ([], xs) else none

/-! ## Subsets -/

/-- `range_is_subset` (`scope.rs:277-282`); the sums are taken in `u128`. -/
def rangeIsSubset (childBase childLen parentBase parentLen : UInt64) : Bool :=
  childBase ≥ parentBase &&
    childBase.toNat + childLen.toNat ≤ parentBase.toNat + parentLen.toNat

/-- The suffix `/**` of a path that stands for all its descendants. -/
def wildcard : List Char := ['/', '*', '*']

/-- `path_is_subset` (`scope.rs:295-310`). -/
def pathIsSubset (a b : List Char) : Bool :=
  match stripSuffix b wildcard with
  | some bPrefix =>
      match stripSuffix a wildcard with
      | some aPrefix => aPrefix == bPrefix || (bPrefix ++ ['/']).isPrefixOf aPrefix
      | none => a == bPrefix || (bPrefix ++ ['/']).isPrefixOf a
  | none => a == b

/-- `endpoint_is_subset` (`scope.rs:315-325`). -/
def endpointIsSubset (a b : List Char) : Bool :=
  match rsplitOnce ':' a with
  | none => false
  | some (aHost, aPort) =>
      match rsplitOnce ':' b with
      | none => false
      | some (bHost, bPort) =>
          (bHost == ['*'] || aHost == bHost) && (bPort == ['0'] || aPort == bPort)

/-- `Resource::is_subset_of` (`scope.rs:212-272`). -/
def Resource.isSubsetOf : Resource → Resource → Bool
  | _, .any => true
  | .filesystem a, .filesystem b => pathIsSubset a.toList b.toList
  | .network a, .network b => endpointIsSubset a.toList b.toList
  | .model a, .model b => a == b
  | .agent a, .agent b => a == b
  | .node a, .node b => a == b
  | .ipcChannel a, .ipcChannel b => a == b
  | .pciDevice s b d f, .pciDevice s' b' d' f' => s == s' && b == b' && d == d' && f == f'
  | .mmioRegion aBase aLen, .mmioRegion bBase bLen => rangeIsSubset aBase aLen bBase bLen
  | .dmaWindow aBase aLen, .dmaWindow bBase bLen => rangeIsSubset aBase aLen bBase bLen
  | .framebuffer aBase aLen, .framebuffer bBase bLen => rangeIsSubset aBase aLen bBase bLen
  | .irqLine a, .irqLine b => a == b
  | _, _ => false

/-- `TimeWindow` (`scope.rs:339-344`): the fields are public and decoded as they come, so
they need not be in order. -/
structure TimeWindow where
  notBefore : UInt64
  notAfter : UInt64
  deriving DecidableEq, Repr

namespace TimeWindow

/-- `contains` (`scope.rs:363-365`). -/
def contains (w : TimeWindow) (now : UInt64) : Bool := now ≥ w.notBefore && now < w.notAfter

/-- `TimeWindow::is_subset_of` (`scope.rs:369-371`). -/
def isSubsetOf (w other : TimeWindow) : Bool :=
  w.notBefore ≥ other.notBefore && w.notAfter ≤ other.notAfter

/-- `duration_secs` (`scope.rs:376-378`): a subtraction with an overflow check. -/
def durationSecs (w : TimeWindow) : Option UInt64 :=
  if w.notBefore ≤ w.notAfter then some (w.notAfter - w.notBefore) else none

end TimeWindow

/-- `Caveat` (`scope.rs:398-415`). -/
inductive Caveat where
  | expiresAt (t : UInt64)
  | notBefore (t : UInt64)
  | boundToNode (node : NodeId)
  | boundToSession (session : Vector UInt8 16)
  | custom (tag : String) (payload : List UInt8)
  deriving DecidableEq, Repr

/-- `Scope` (`scope.rs:424-434`). -/
structure Scope where
  action : Action
  resource : Resource
  window : TimeWindow
  caveats : List Caveat
  deriving DecidableEq, Repr

/-- `Scope::is_subset_of` (`scope.rs:443-459`). -/
def Scope.isSubsetOf (s other : Scope) : Bool :=
  if s.action ≠ other.action then false
  else if !s.resource.isSubsetOf other.resource then false
  else if !s.window.isSubsetOf other.window then false
  else other.caveats.all (s.caveats.contains ·)

end NexaCore.Capability
