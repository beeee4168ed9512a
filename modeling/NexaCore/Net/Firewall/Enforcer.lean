import NexaCore.Net.Firewall.AllowList
import NexaCore.Misc.MapFold

/-!
# Connection tracking and the enforcer

The stateful packet filter of `nexacore-net/src/conntrack.rs` and the decision point of
`enforcer.rs` that puts the capability gate and the allow list before it. A flow is tracked under
its protocol and its endpoints in ascending order: both directions share one entry.
-/

namespace NexaCore.Net.Firewall

open Std

/-- `Endpoint` (`conntrack.rs:25-31`). -/
structure Endpoint where
  ip : BitVec 32
  port : UInt16
  deriving DecidableEq, Repr

/-- The position of an endpoint in the derived order, by address and then by port. -/
def Endpoint.rank (e : Endpoint) : Nat := e.ip.toNat * 2 ^ 16 + e.port.toNat

/-- `TcpFlags` (`conntrack.rs:44-53`). -/
structure TcpFlags where
  syn : Bool := false
  ack : Bool := false
  fin : Bool := false
  rst : Bool := false
  deriving DecidableEq, Repr

/-- `Direction` (`conntrack.rs:86-92`). -/
inductive Direction
  | outbound
  | inbound
  deriving DecidableEq, Repr

/-- `Packet` (`conntrack.rs:95-107`). -/
structure Packet where
  protocol : Protocol
  src : Endpoint
  dst : Endpoint
  direction : Direction
  flags : TcpFlags
  deriving DecidableEq, Repr

/-- `ConnState` (`conntrack.rs:110-120`), whose first constructor is called `New` in the
source. -/
inductive ConnState
  | opened
  | established
  | closing
  | closed
  deriving DecidableEq, Repr

/-- `Verdict` (`conntrack.rs:123-129`). -/
inductive Verdict
  | accept
  | drop
  deriving DecidableEq, Repr

/-- `FlowKey` (`conntrack.rs:133-138`). -/
structure FlowKey where
  proto : UInt8
  lo : Endpoint
  hi : Endpoint
  deriving DecidableEq, Repr

/-- The position of a key in the derived order, field by field. -/
def FlowKey.rank (key : FlowKey) : Nat :=
  (key.proto.toNat * 2 ^ 48 + key.lo.rank) * 2 ^ 48 + key.hi.rank

instance : Ord FlowKey where
  compare a b := compare a.rank b.rank

theorem FlowKey.compare_eq (a b : FlowKey) : compare a b = compare a.rank b.rank := rfl

instance : TransOrd FlowKey where
  eq_swap {a b} := by
    rw [FlowKey.compare_eq, FlowKey.compare_eq]
    exact OrientedCmp.eq_swap
  isLE_trans {a b c} first second := by
    rw [FlowKey.compare_eq] at *
    exact TransCmp.isLE_trans first second

theorem Endpoint.rank_lt (e : Endpoint) : e.rank < 2 ^ 48 := by
  have ip := e.ip.isLt
  have port := e.port.toNat_lt
  unfold rank
  omega

theorem Endpoint.rank_inj {d e : Endpoint} (same : d.rank = e.rank) : d = e := by
  have dPort := d.port.toNat_lt
  have ePort := e.port.toNat_lt
  unfold rank at same
  obtain ⟨dIp, dPort⟩ := d
  obtain ⟨eIp, ePort⟩ := e
  rw [Endpoint.mk.injEq, ← BitVec.toNat_inj, ← UInt16.toNat_inj]
  dsimp only at *
  omega

theorem FlowKey.rank_inj {a b : FlowKey} (same : a.rank = b.rank) : a = b := by
  have aLo := a.lo.rank_lt
  have bLo := b.lo.rank_lt
  have aHi := a.hi.rank_lt
  have bHi := b.hi.rank_lt
  obtain ⟨aProto, lo, hi⟩ := a
  obtain ⟨bProto, lo', hi'⟩ := b
  unfold rank at same
  dsimp only at *
  have proto : aProto = bProto := UInt8.toNat_inj.mp (by omega)
  have los : lo = lo' := Endpoint.rank_inj (by omega)
  have his : hi = hi' := Endpoint.rank_inj (by omega)
  rw [proto, los, his]

instance : LawfulEqOrd FlowKey where
  eq_of_compare equal := by
    rw [FlowKey.compare_eq] at equal
    exact FlowKey.rank_inj (Nat.compare_eq_eq.mp equal)

/-- The protocol number of a key (`conntrack.rs:141-144`). -/
def Protocol.number : Protocol → UInt8
  | .tcp => 6
  | .udp => 17

/-- `canonical` (`conntrack.rs:140-151`). -/
def canonical (pkt : Packet) : FlowKey :=
  if pkt.src.rank ≤ pkt.dst.rank then ⟨pkt.protocol.number, pkt.src, pkt.dst⟩
  else ⟨pkt.protocol.number, pkt.dst, pkt.src⟩

/-- `ConnTrack` (`conntrack.rs:154-157`). -/
structure ConnTrack where
  flows : ExtTreeMap FlowKey ConnState := ∅

namespace ConnTrack

/-- `ConnTrack::advance` (`conntrack.rs:184-211`). -/
def advance (protocol : Protocol) (state : ConnState) (pkt : Packet) : ConnState :=
  if protocol = .udp then
    if state = .opened ∧ pkt.direction = .inbound then .established else state
  else if pkt.flags.rst then .closed
  else if pkt.flags.fin then if state = .closing then .closed else .closing
  else if state = .opened ∧ pkt.direction = .inbound ∧ pkt.flags.syn ∧ pkt.flags.ack then
    .established
  else state

/-- `ConnTrack::filter` (`conntrack.rs:218-242`). -/
def filter (track : ConnTrack) (pkt : Packet) : Verdict × ConnTrack :=
  match track.flows[canonical pkt]? with
  | some state =>
    let next := advance pkt.protocol state pkt
    if next = .closed then (.accept, ⟨track.flows.erase (canonical pkt)⟩)
    else (.accept, ⟨track.flows.insert (canonical pkt) next⟩)
  | none =>
    match pkt.direction with
    | .outbound =>
      -- A new TCP flow must open with a pure SYN.
      if pkt.protocol = .tcp ∧ (!pkt.flags.syn || pkt.flags.ack) then (.drop, track)
      else (.accept, ⟨track.flows.insert (canonical pkt) .opened⟩)
    | .inbound => (.drop, track)

end ConnTrack

/-- What an outbound packet asks of the allow list (`enforcer.rs:82-87`). -/
def Packet.target (packet : Packet) : EgressTarget where
  protocol := packet.protocol
  ip := packet.dst.ip
  domain := none
  port := packet.dst.port

/-- `NetEnforcer` (`enforcer.rs:26-28`). -/
structure NetEnforcer where
  conntrack : ConnTrack := {}

structure Call where
  cap : NetCapability
  allow : AppAllowList
  packet : Packet
  deriving DecidableEq, Repr

namespace NetEnforcer

/-- `NetEnforcer::open_socket` (`enforcer.rs:56-65`). -/
def openSocket (cap : NetCapability) (allow : AppAllowList) (target : EgressTarget) :
    Except DenyReason Unit :=
  match evaluate cap allow target with
  | .allow => .ok ()
  | .deny reason => .error reason

/-- `NetEnforcer::filter` (`enforcer.rs:68-93`). -/
def filter (enforcer : NetEnforcer) (call : Call) : Verdict × NetEnforcer :=
  if mayOpenSocket call.cap = false then (.drop, enforcer)
  else if call.packet.direction = .outbound ∧ call.allow.permits call.packet.target = false then
    (.drop, enforcer)
  else
    let (verdict, conntrack) := enforcer.conntrack.filter call.packet
    (verdict, ⟨conntrack⟩)

/-- The enforcer after a sequence of calls on a new one. -/
def afterCalls (calls : List Call) : NetEnforcer :=
  calls.foldl (fun enforcer call => (enforcer.filter call).2) {}

def verdictAfter (calls : List Call) (call : Call) : Verdict := ((afterCalls calls).filter call).1

end NetEnforcer

end NexaCore.Net.Firewall
