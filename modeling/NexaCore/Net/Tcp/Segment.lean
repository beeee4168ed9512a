import Mathlib.Tactic

/-!
# TCP segments

The headers of `nexacore-types/src/net.rs` as far as the TCP layer reads or builds them, and
the segment builder of `nexacore-net/src/tcp.rs`. A segment is kept as the arguments of the
builder; the bytes of its packet are `Segment.packet`. Sequence numbers are 32-bit words whose
arithmetic wraps.
-/

namespace NexaCore.Net

/-- A sequence or acknowledgement number. -/
abbrev Seq := BitVec 32

/-- `Ipv4Addr` (`net.rs`). -/
abbrev Ipv4Addr := Vector UInt8 4

/-- `SocketApiAddr` (`socket.rs:240-250`). -/
structure SocketApiAddr where
  ip : Ipv4Addr
  port : UInt16
  deriving DecidableEq, Repr

/-- `TcpConnectionKey` (`tcp.rs:304`): the local and the remote endpoint. -/
abbrev TcpConnectionKey := SocketApiAddr × SocketApiAddr

/-- `to_be_bytes`, for a value of `width` bytes. -/
def toBeBytes : Nat → Nat → List UInt8
  | 0, _ => []
  | width + 1, value => toBeBytes width (value / 256) ++ [UInt8.ofNat (value % 256)]

namespace TcpFlags

/-- The control bits (`net.rs:1290-1305`). -/
def fin : UInt8 := 0x01

def syn : UInt8 := 0x02

def rst : UInt8 := 0x04

def psh : UInt8 := 0x08

def ack : UInt8 := 0x10

/-- A control bit is set. -/
def Has (flags flag : UInt8) : Prop := flags &&& flag ≠ 0

instance (flags flag : UInt8) : Decidable (Has flags flag) :=
  inferInstanceAs (Decidable (flags &&& flag ≠ 0))

end TcpFlags

/-- `TcpHeader` (`net.rs:1370-1388`) of an arriving segment, without the checksum and the urgent
pointer: nothing reads them. -/
structure TcpHeader where
  srcPort : UInt16
  dstPort : UInt16
  seqNum : Seq
  ackNum : Seq
  dataOffsetFlags : UInt16
  window : UInt16
  deriving DecidableEq, Repr

/-- `TcpHeader::flags` (`net.rs:1472-1474`). -/
def TcpHeader.flags (header : TcpHeader) : UInt8 := (header.dataOffsetFlags &&& 0x00ff).toUInt8

/-! ## Building -/

/-- The arguments of `build_tcp_segment_with_options` (`tcp.rs:1495-1506`). -/
structure Segment where
  srcIp : Ipv4Addr
  dstIp : Ipv4Addr
  srcPort : UInt16
  dstPort : UInt16
  seq : Seq
  ack : Seq
  flags : UInt8
  window : UInt16
  options : List UInt8
  payload : List UInt8
  deriving DecidableEq, Repr

/-- The sum of the 16-bit words of a checksum; an odd byte is the high half of a word. -/
def checksumWords : List UInt8 → Nat
  | [] => 0
  | [high] => high.toNat * 256
  | high :: low :: rest => high.toNat * 256 + low.toNat + checksumWords rest

/-- The loop that adds the carries back. A 32-bit sum needs at most three turns. -/
def foldCarries : Nat → Nat → Nat
  | 0, sum => sum
  | turns + 1, sum =>
      if sum / 2 ^ 16 = 0 then sum else foldCarries turns (sum % 2 ^ 16 + sum / 2 ^ 16)

/-- `internet_checksum` (`net.rs:39-60`), and `checksum_combine` of slices of even length. -/
def internetChecksum (data : List UInt8) : Nat := 2 ^ 16 - 1 - foldCarries 3 (checksumWords data)

/-- `build_ipv4_packet` (`ip.rs:196-228`) for TCP with the arguments of the segment builder. -/
def buildIpv4Packet (src dst : Ipv4Addr) (payload : List UInt8) : List UInt8 :=
  let totalLength := min (20 + payload.length) (2 ^ 16 - 1)
  let header := fun checksum : Nat =>
    [0x45, 0] ++ toBeBytes 2 totalLength ++ toBeBytes 2 0 ++ toBeBytes 2 0x4000 ++ [64, 6] ++
      toBeBytes 2 checksum ++ src.toList ++ dst.toList
  header (internetChecksum (header 0)) ++ payload

namespace Segment

/-- The TCP header of a segment with a checksum (`TcpHeader::serialize`, `net.rs:1434-1467`). -/
def headerBytes (s : Segment) (checksum : Nat) : List UInt8 :=
  toBeBytes 2 s.srcPort.toNat ++ toBeBytes 2 s.dstPort.toNat ++ toBeBytes 4 s.seq.toNat ++
    toBeBytes 4 s.ack.toNat ++
    toBeBytes 2 ((5 + s.options.length / 4) * 2 ^ 12 + s.flags.toNat) ++
    toBeBytes 2 s.window.toNat ++ toBeBytes 2 checksum ++ toBeBytes 2 0

/-- The packet of a segment (`tcp.rs:1515-1555`). -/
def packet (s : Segment) : List UInt8 :=
  let rest := s.options ++ s.payload
  let pseudo := s.srcIp.toList ++ s.dstIp.toList ++ [0, 6] ++
    toBeBytes 2 ((20 + rest.length) % 2 ^ 16)
  let checksum := internetChecksum (pseudo ++ s.headerBytes 0 ++ rest)
  buildIpv4Packet s.srcIp s.dstIp (s.headerBytes checksum ++ rest)

end Segment

/-- `build_tcp_segment_with_options` (`tcp.rs:1495-1556`): options that are not padded or too
long are dropped. -/
def buildTcpSegmentWithOptions (srcIp dstIp : Ipv4Addr) (srcPort dstPort : UInt16) (seq ack : Seq)
    (flags : UInt8) (window : UInt16) (options payload : List UInt8) : Segment where
  srcIp := srcIp
  dstIp := dstIp
  srcPort := srcPort
  dstPort := dstPort
  seq := seq
  ack := ack
  flags := flags
  window := window
  options := if options.length % 4 = 0 ∧ options.length ≤ 40 then options else []
  payload := payload

/-- `build_tcp_segment` (`tcp.rs:1470-1484`). -/
def buildTcpSegment (srcIp dstIp : Ipv4Addr) (srcPort dstPort : UInt16) (seq ack : Seq)
    (flags : UInt8) (window : UInt16) (payload : List UInt8) : Segment :=
  buildTcpSegmentWithOptions srcIp dstIp srcPort dstPort seq ack flags window [] payload

/-- `encode_mss` (`tcp.rs:271-274`). -/
def encodeMss (mss : Nat) : List UInt8 := [2, 4] ++ toBeBytes 2 mss

/-- The events for the service loop, `TcpOutput` (`tcp.rs:331-359`). -/
inductive TcpOutput where
  | sendSegment (data : Segment) (dstIp : Ipv4Addr)
  | connectionEstablished (key : TcpConnectionKey)
  | dataReceived (key : TcpConnectionKey)
  | connectionClosed (key : TcpConnectionKey)
  | connectionRefused (key : TcpConnectionKey)
  deriving DecidableEq, Repr

/-- The errors of the socket calls, from `NetError` (`socket.rs:185-224`). -/
inductive NetError where
  | connectionRefused
  | hostUnreachable
  | timedOut
  | addrInUse
  | wouldBlock
  | invalidArgument
  | notConnected
  deriving DecidableEq, Repr

end NexaCore.Net
