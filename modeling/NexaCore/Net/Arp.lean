import NexaCore.Net.Wire
import Std.Data.ExtTreeMap

/-!
# Address resolution

The ARP table of `nexacore-net/src/arp.rs`. A packet for an address that is not resolved waits
in the table until an answer arrives. Times are in seconds.
-/

namespace NexaCore.Net

open Std ArpOperation

/-- `ARP_TIMEOUT_SECS` to `ARP_RETRANSMIT_INTERVAL_SECS` (`arp.rs:43-70`). -/
def arpTimeoutSecs : Nat := 300

def arpMaxEntries : Nat := 256

def arpMaxPending : Nat := 8

def arpPendingTimeoutSecs : Nat := 3

def arpRetransmitIntervalSecs : Nat := 1

/-- `ip_key` (`arp.rs:81-83`). -/
def ipKey (ip : Ipv4Addr) : Nat := fromBeBytes ip.toList

/-- `PendingPacket` (`arp.rs:127-132`). -/
structure PendingPacket where
  data : List UInt8
  nextHopIp : Ipv4Addr
  deriving DecidableEq, Repr

/-- `ArpState` (`arp.rs:111-123`). -/
inductive ArpState where
  | incomplete (pendingPackets : List PendingPacket)
  | reachable
  | stale
  deriving DecidableEq, Repr

def ArpState.pendingPackets : ArpState → List PendingPacket
  | .incomplete packets => packets
  | .reachable | .stale => []

/-- `ArpEntry` (`arp.rs:91-107`). -/
structure ArpEntry where
  ip : Ipv4Addr
  mac : MacAddress
  state : ArpState
  timestamp : Nat
  lastRequest : Nat
  deriving DecidableEq, Repr

/-- `ArpHandleResult` (`arp.rs:148-156`). -/
inductive ArpHandleResult where
  | sendReply (reply : ArpPacket)
  | updatedTable
  | ignored
  deriving DecidableEq, Repr

/-- `ArpTable` (`arp.rs:184-195`). -/
structure ArpTable where
  entries : ExtTreeMap Nat ArpEntry := ∅
  maxEntries : Nat
  lastNow : Nat := 0

namespace ArpTable

/-- The queue of an entry with a packet added: the oldest of a full queue is dropped
(`arp.rs:262-270`). -/
def enqueue (queue : List PendingPacket) : Option PendingPacket → List PendingPacket
  | none => queue
  | some packet => (if queue.length ≥ arpMaxPending then queue.drop 1 else queue) ++ [packet]

/-- `resolve` (`arp.rs:226-273`): the address, or `none` for `Pending`. -/
def resolve (t : ArpTable) (ip : Ipv4Addr) (pending : Option PendingPacket) :
    Option MacAddress × ArpTable :=
  let wait := fun (entry : ArpEntry) (queue : List PendingPacket) =>
    let entry := { entry with state := .incomplete (enqueue queue pending) }
    { t with entries := t.entries.insert (ipKey ip) entry }
  match t.entries[ipKey ip]? with
  | some entry =>
      match entry.state with
      | .incomplete queue => (none, wait entry queue)
      | .reachable | .stale => (some entry.mac, t)
  | none => (none, wait ⟨ip, Vector.replicate 6 0, .incomplete [], t.lastNow, t.lastNow⟩ [])

/-- The key of the entry with the smallest timestamp, the first of several
(`Iterator::min_by_key`). -/
def oldestKey : List (Nat × ArpEntry) → Option Nat
  | [] => none
  | first :: rest =>
      some (rest.foldl (fun oldest entry =>
        if entry.2.timestamp < oldest.2.timestamp then entry else oldest) first).1

/-- `evict_oldest` (`arp.rs:463-474`). -/
def evictOldest (t : ArpTable) : ArpTable :=
  match oldestKey t.entries.toList with
  | some key => { t with entries := t.entries.erase key }
  | none => t

/-- `insert` (`arp.rs:327-361`): the packets that wait stay with the entry. -/
def insert (t : ArpTable) (ip : Ipv4Addr) (mac : MacAddress) (timestamp : Nat) : ArpTable :=
  let t := if ipKey ip ∉ t.entries ∧ t.entries.size ≥ t.maxEntries then t.evictOldest else t
  let old := t.entries[ipKey ip]?
  let pending := old.elim [] (·.state.pendingPackets)
  let entry : ArpEntry :=
    { ip
      mac
      state := if pending = [] then .reachable else .incomplete pending
      timestamp
      lastRequest := old.elim timestamp (·.lastRequest) }
  { t with entries := t.entries.insert (ipKey ip) entry }

/-- `handle_arp_packet` (`arp.rs:280-321`). -/
def handleArpPacket (t : ArpTable) (packet : ArpPacket) (ourMac : MacAddress) (ourIp : Ipv4Addr) :
    ArpHandleResult × ArpTable :=
  if packet.htype ≠ 1 ∨ packet.ptype ≠ 0x0800 then (.ignored, t)
  else if packet.operation = request then
    let t := t.insert packet.senderIp packet.senderMac 0
    if packet.targetIp ≠ ourIp then (.ignored, t)
    else
      (.sendReply
        { htype := 1
          ptype := 0x0800
          hlen := 6
          plen := 4
          operation := reply
          senderMac := ourMac
          senderIp := ourIp
          targetMac := packet.senderMac
          targetIp := packet.senderIp }, t)
  else if packet.operation = reply then
    (.updatedTable, t.insert packet.senderIp packet.senderMac 0)
  else (.ignored, t)

/-- `drain_pending` (`arp.rs:368-381`). -/
def drainPending (t : ArpTable) (ip : Ipv4Addr) : List PendingPacket × ArpTable :=
  match t.entries[ipKey ip]? with
  | none => ([], t)
  | some entry =>
      (entry.state.pendingPackets,
        { t with entries := t.entries.insert (ipKey ip) { entry with state := .reachable } })

/-- What becomes of an entry of an age (`arp.rs:389-413`). -/
def ageEntry (now timeout : Nat) (entry : ArpEntry) : Option ArpEntry :=
  let age := now - entry.timestamp
  match entry.state with
  | .reachable =>
      if age > timeout * 2 then none
      else if age > timeout then some { entry with state := .stale }
      else some entry
  | .stale => if age ≤ timeout * 2 then some entry else none
  | .incomplete _ => if age ≤ arpPendingTimeoutSecs then some entry else none

/-- `expire_stale` (`arp.rs:385-415`). -/
def expireStale (t : ArpTable) (now timeout : Nat) : ArpTable :=
  { t with
    entries := t.entries.filterMap fun _ entry => ageEntry now timeout entry, lastNow := now }

/-- An unanswered request is to be repeated (`arp.rs:429-431`). -/
def isDue (now : Nat) (entry : ArpEntry) : Bool :=
  match entry.state with
  | .incomplete _ => now - entry.lastRequest ≥ arpRetransmitIntervalSecs
  | .reachable | .stale => false

/-- `due_retransmits` (`arp.rs:426-437`). -/
def dueRetransmits (t : ArpTable) (now : Nat) : List Ipv4Addr × ArpTable :=
  ((t.entries.toList.filter (isDue now ·.2)).map (·.2.ip),
    { t with entries := t.entries.map fun _ entry =>
      if isDue now entry then { entry with lastRequest := now } else entry })

/-- `build_request` (`arp.rs:444-456`). -/
def buildRequest (ourMac : MacAddress) (ourIp targetIp : Ipv4Addr) : ArpPacket where
  htype := 1
  ptype := 0x0800
  hlen := 6
  plen := 4
  operation := request
  senderMac := ourMac
  senderIp := ourIp
  targetMac := Vector.replicate 6 0
  targetIp := targetIp

end ArpTable

end NexaCore.Net
