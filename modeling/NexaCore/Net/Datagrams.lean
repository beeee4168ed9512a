import NexaCore.Net.Wire
import Std.Data.ExtTreeMap

/-!
# ICMP and UDP

The ICMP handler of `nexacore-net/src/icmp.rs` and the UDP socket table of `udp.rs`.
-/

namespace NexaCore.Net

open Std IcmpType IpProtocol

/-! ## ICMP -/

/-- `PingPending` (`icmp.rs:41-46`). -/
structure PingPending where
  sentAt : Nat
  payload : List UInt8
  deriving DecidableEq, Repr

/-- `PingState` (`icmp.rs:30-37`). -/
structure PingState where
  identifier : UInt16
  nextSeq : UInt16
  pending : ExtTreeMap UInt16 PingPending

/-- `IcmpHandleResult` (`icmp.rs:50-71`). -/
inductive IcmpHandleResult where
  | reply (data : List UInt8) (dstIp : Ipv4Addr)
  | pingResponse (id seq : UInt16) (rttNs : Nat)
  | destUnreachable (code : UInt8)
  | timeExceeded
  | ignored
  deriving DecidableEq, Repr

/-- `IcmpHandler` (`icmp.rs:102-105`). -/
structure IcmpHandler where
  pendingPings : ExtTreeMap UInt16 PingState := ∅

namespace IcmpHandler

/-- `build_echo_reply` (`icmp.rs:187-203`). -/
def buildEchoReply (request : IcmpHeader) (payload : List UInt8) : List UInt8 :=
  let header : IcmpHeader := ⟨echoReply, 0, 0, request.rest⟩
  { header with checksum := header.computeChecksum payload }.serialize ++ payload

/-- `handle_icmp` (`icmp.rs:118-156`). -/
def handleIcmp (h : IcmpHandler) (header : IcmpHeader) (payload : List UInt8) (srcIp : Ipv4Addr)
    (now : Nat) : IcmpHandleResult × IcmpHandler :=
  if header.icmpType = echoRequest then (.reply (buildEchoReply header payload) srcIp, h)
  else if header.icmpType = echoReply then
    let id := u16At header.rest.toList 0
    let seq := u16At header.rest.toList 2
    match h.pendingPings[id]? with
    | none => (.ignored, h)
    | some state =>
        match state.pending[seq]? with
        | none => (.ignored, h)
        | some pending =>
            (.pingResponse id seq (now - pending.sentAt),
              ⟨h.pendingPings.insert id { state with pending := state.pending.erase seq }⟩)
  else if header.icmpType = destUnreachable then (.destUnreachable header.code, h)
  else if header.icmpType = timeExceeded then (.timeExceeded, h)
  else (.ignored, h)

end IcmpHandler

/-! ## UDP -/

/-- `UdpSocket` (`udp.rs:44-51`). -/
structure UdpSocket where
  localPort : UInt16
  remote : Option SocketApiAddr
  recvQueue : List (SocketApiAddr × List UInt8)
  deriving DecidableEq, Repr

/-- The header that `build_udp_packet` (`udp.rs:216-240`) fills in. -/
def UdpHeader.ofPayload (srcIp dstIp : Ipv4Addr) (srcPort dstPort : UInt16)
    (payload : List UInt8) : UdpHeader :=
  let length := UInt16.ofNat (min (8 + payload.length) (2 ^ 16 - 1))
  let header : UdpHeader := ⟨srcPort, dstPort, length, 0⟩
  { header with checksum :=
      header.computeChecksum (pseudoHeader srcIp dstIp udp length) payload }

/-- `build_udp_packet` (`udp.rs:216-248`). -/
def buildUdpPacket (srcIp dstIp : Ipv4Addr) (srcPort dstPort : UInt16) (payload : List UInt8) :
    List UInt8 :=
  (UdpHeader.ofPayload srcIp dstIp srcPort dstPort payload).serialize ++ payload

/-- `UdpSocketTable` (`udp.rs:67-72`). -/
structure UdpSocketTable where
  sockets : ExtTreeMap UInt16 UdpSocket := ∅

namespace UdpSocketTable

/-- `bind` (`udp.rs:92-105`). -/
def bind (t : UdpSocketTable) (port : UInt16) : Except NetError UInt16 × UdpSocketTable :=
  if port ∈ t.sockets then (.error .addrInUse, t)
  else (.ok port, ⟨t.sockets.insert port ⟨port, none, []⟩⟩)

/-- `sendto` (`udp.rs:138-152`). -/
def sendto (t : UdpSocketTable) (port : UInt16) (dst : SocketApiAddr) (srcIp dstIp : Ipv4Addr)
    (data : List UInt8) : Except NetError (List UInt8) :=
  if port ∈ t.sockets then
    .ok (Ipv4Header.buildPacket srcIp dstIp udp 64 0
      (buildUdpPacket srcIp dstIp port dst.port data))
  else .error .invalidArgument

/-- `handle_packet` (`udp.rs:157-172`). -/
def handlePacket (t : UdpSocketTable) (header : UdpHeader) (payload : List UInt8)
    (srcIp : Ipv4Addr) : UdpSocketTable :=
  match t.sockets[header.dstPort]? with
  | none => t
  | some socket =>
      ⟨t.sockets.insert header.dstPort
        { socket with recvQueue := socket.recvQueue ++ [(⟨srcIp, header.srcPort⟩, payload)] }⟩

/-- `recvfrom` (`udp.rs:177-179`). -/
def recvfrom (t : UdpSocketTable) (port : UInt16) :
    Option (SocketApiAddr × List UInt8) × UdpSocketTable :=
  match t.sockets[port]? with
  | none => (none, t)
  | some socket =>
      (socket.recvQueue.head?,
        ⟨t.sockets.insert port { socket with recvQueue := socket.recvQueue.tail }⟩)

/-- `close` (`udp.rs:184-186`). -/
def close (t : UdpSocketTable) (port : UInt16) : UdpSocketTable := ⟨t.sockets.erase port⟩

end UdpSocketTable

end NexaCore.Net
