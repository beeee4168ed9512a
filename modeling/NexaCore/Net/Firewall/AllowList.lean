import Mathlib.Tactic

/-!
# Egress policy

The per-application allow lists of `nexacore-net/src/allowlist.rs` and the capability gate of
`egress_policy.rs`. A connection is permitted only to an application that holds the network
capability, and only to a target that some rule of its list matches.
-/

namespace NexaCore.Net.Firewall

/-- `Protocol` (`conntrack.rs:16-22`). -/
inductive Protocol
  | tcp
  | udp
  deriving DecidableEq, Repr

/-- `HostMatch` (`allowlist.rs:25-38`); the length of an address block is within the range its
comment gives, which is the range the rule parser accepts. -/
inductive HostMatch
  | any
  | cidr (base : BitVec 32) (prefixLen : Fin 33)
  | domainSuffix (suffix : String)
  deriving DecidableEq, Repr

/-- `str::strip_suffix`. -/
def stripSuffix (text suffix : List Char) : Option (List Char) :=
  if suffix <:+ text then some (text.take (text.length - suffix.length)) else none

/-- The mask of an address block (`allowlist.rs:45-49`). -/
def cidrMask (prefixLen : Fin 33) : BitVec 32 :=
  if prefixLen = 0 then 0 else BitVec.allOnes 32 <<< (32 - prefixLen.val)

/-- `HostMatch::matches` (`allowlist.rs:41-57`). -/
def HostMatch.matches (host : HostMatch) (ip : BitVec 32) (domain : Option String) : Bool :=
  match host with
  | .any => true
  | .cidr base prefixLen => ip &&& cidrMask prefixLen == base &&& cidrMask prefixLen
  | .domainSuffix suffix =>
    (domain.bind fun d => stripSuffix d.toList suffix.toList).any fun rest =>
      rest.isEmpty || rest.getLast? == some '.'

/-- `PortMatch` (`allowlist.rs:60-69`). -/
inductive PortMatch
  | any
  | exact (port : UInt16)
  | range (lo hi : UInt16)
  deriving DecidableEq, Repr

/-- `PortMatch::matches` (`allowlist.rs:72-78`). -/
def PortMatch.matches : PortMatch → UInt16 → Bool
  | .any, _ => true
  | .exact p, port => port == p
  | .range lo hi, port => lo ≤ port && port ≤ hi

/-- `EgressRule` (`allowlist.rs:82-90`). -/
structure EgressRule where
  protocol : Option Protocol
  host : HostMatch
  port : PortMatch
  deriving DecidableEq, Repr

/-- `EgressTarget` (`allowlist.rs:94-103`). -/
structure EgressTarget where
  protocol : Protocol
  ip : BitVec 32
  domain : Option String
  port : UInt16
  deriving DecidableEq, Repr

/-- `EgressRule::matches` (`allowlist.rs:120-127`). -/
def EgressRule.matches (rule : EgressRule) (target : EgressTarget) : Bool :=
  rule.protocol.all (· == target.protocol) &&
    (rule.host.matches target.ip target.domain && rule.port.matches target.port)

/-- `AppAllowList` (`allowlist.rs:183-188`). -/
structure AppAllowList where
  appId : String
  rules : List EgressRule
  deriving DecidableEq, Repr

/-- `AppAllowList::permits` (`allowlist.rs:224-226`). -/
def AppAllowList.permits (list : AppAllowList) (target : EgressTarget) : Bool :=
  list.rules.any (·.matches target)

/-- `NetCapability` (`egress_policy.rs:18-24`). -/
inductive NetCapability
  | none
  | granted
  deriving DecidableEq, Repr

/-- `DenyReason` (`egress_policy.rs:27-33`). -/
inductive DenyReason
  | noCapability
  | notAllowed
  deriving DecidableEq, Repr

/-- `EgressDecision` (`egress_policy.rs:36-42`). -/
inductive EgressDecision
  | allow
  | deny (reason : DenyReason)
  deriving DecidableEq, Repr

/-- `EgressPolicy::may_open_socket` (`egress_policy.rs:62-64`). -/
def mayOpenSocket (cap : NetCapability) : Bool := cap == .granted

/-- `EgressPolicy::evaluate` (`egress_policy.rs:66-88`). -/
def evaluate (cap : NetCapability) (allow : AppAllowList) (target : EgressTarget) :
    EgressDecision :=
  match cap with
  | .none => .deny .noCapability
  | .granted => if allow.permits target then .allow else .deny .notAllowed

end NexaCore.Net.Firewall
