import NexaCore.Net.Tcp.Segment
import NexaCore.Misc.Slices

/-!
# Headers on the wire

The parsers and serializers of the packet headers of `nexacore-types/src/net.rs`, and the IPv4
layer of `nexacore-net/src/ip.rs`. A parser checks the length once and then reads its fields at
fixed offsets; it returns the header and what follows it.
-/

namespace NexaCore.Net

open Misc

/-! ## Fields -/

/-- `MacAddress` (`net.rs:157`). -/
abbrev MacAddress := Vector UInt8 6

/-- `from_be_bytes`. -/
def fromBeBytes (bytes : List UInt8) : Nat :=
  bytes.foldl (fun value byte => value * 256 + byte.toNat) 0

def u8At (bytes : List UInt8) (offset : Nat) : UInt8 := bytes.getD offset 0

/-- The big-endian word at an offset. -/
def u16At (bytes : List UInt8) (offset : Nat) : UInt16 :=
  UInt16.ofNat (fromBeBytes (slice offset 2 bytes))

def u32At (bytes : List UInt8) (offset : Nat) : BitVec 32 :=
  BitVec.ofNat 32 (fromBeBytes (slice offset 4 bytes))

/-- The array of `n` bytes at an offset. -/
def bytesAt (n : Nat) (bytes : List UInt8) (offset : Nat) : Vector UInt8 n :=
  Vector.ofFn fun i => bytes.getD (offset + i) 0

/-! ## Ethernet -/

/-- The values of `EtherType` (`net.rs:236-245`) that the service handles. -/
def EtherType.ipv4 : UInt16 := 0x0800

def EtherType.arp : UInt16 := 0x0806

/-- `EthernetHeader` (`net.rs:268-275`). -/
structure EthernetHeader where
  dst : MacAddress
  src : MacAddress
  etherType : UInt16
  deriving DecidableEq, Repr

namespace EthernetHeader

/-- The fields of a header, read at their offsets (`net.rs:290-306`). -/
def read (bytes : List UInt8) : EthernetHeader where
  dst := bytesAt 6 bytes 0
  src := bytesAt 6 bytes 6
  etherType := u16At bytes 12

/-- `EthernetHeader::parse` (`net.rs:286-315`). -/
def parse (bytes : List UInt8) : Option (EthernetHeader × List UInt8) :=
  if bytes.length < 14 then none else some (read bytes, bytes.drop 14)

/-- `EthernetHeader::serialize` (`net.rs:321-341`). -/
def serialize (header : EthernetHeader) : List UInt8 :=
  header.dst.toList ++ (header.src.toList ++ toBeBytes 2 header.etherType.toNat)

end EthernetHeader

/-! ## ARP -/

/-- The values of `ArpOperation` (`net.rs:1518-1523`). -/
def ArpOperation.request : UInt16 := 1

def ArpOperation.reply : UInt16 := 2

/-- `ArpPacket` (`net.rs:1552-1571`). -/
structure ArpPacket where
  htype : UInt16
  ptype : UInt16
  hlen : UInt8
  plen : UInt8
  operation : UInt16
  senderMac : MacAddress
  senderIp : Ipv4Addr
  targetMac : MacAddress
  targetIp : Ipv4Addr
  deriving DecidableEq, Repr

namespace ArpPacket

/-- `ArpPacket::parse` (`net.rs:1581-1620`). -/
def parse (bytes : List UInt8) : Option ArpPacket :=
  if bytes.length < 28 then none
  else some
    { htype := u16At bytes 0
      ptype := u16At bytes 2
      hlen := u8At bytes 4
      plen := u8At bytes 5
      operation := u16At bytes 6
      senderMac := bytesAt 6 bytes 8
      senderIp := bytesAt 4 bytes 14
      targetMac := bytesAt 6 bytes 18
      targetIp := bytesAt 4 bytes 24 }

/-- `ArpPacket::serialize` (`net.rs:1624-1660`). -/
def serialize (packet : ArpPacket) : List UInt8 :=
  toBeBytes 2 packet.htype.toNat ++ toBeBytes 2 packet.ptype.toNat ++ [packet.hlen, packet.plen] ++
    toBeBytes 2 packet.operation.toNat ++ packet.senderMac.toList ++ packet.senderIp.toList ++
    packet.targetMac.toList ++ packet.targetIp.toList

end ArpPacket

/-! ## IPv4 -/

/-- The values of `IpProtocol` (`net.rs:647-654`). -/
def IpProtocol.icmp : UInt8 := 1

def IpProtocol.tcp : UInt8 := 6

def IpProtocol.udp : UInt8 := 17

/-- `Ipv4Header` (`net.rs:682-703`). -/
structure Ipv4Header where
  versionIhl : UInt8
  dscpEcn : UInt8
  totalLength : UInt16
  identification : UInt16
  flagsFragment : UInt16
  ttl : UInt8
  protocol : UInt8
  headerChecksum : UInt16
  src : Ipv4Addr
  dst : Ipv4Addr
  deriving DecidableEq, Repr

namespace Ipv4Header

/-- The header length of a packet, from the low half of its first byte (`net.rs:719-720`). -/
def ihl (versionIhl : UInt8) : Nat := (versionIhl &&& 0x0F).toNat * 4

/-- The fields of a header, read at their offsets (`net.rs:724-745`). -/
def read (bytes : List UInt8) : Ipv4Header where
  versionIhl := u8At bytes 0
  dscpEcn := u8At bytes 1
  totalLength := u16At bytes 2
  identification := u16At bytes 4
  flagsFragment := u16At bytes 6
  ttl := u8At bytes 8
  protocol := u8At bytes 9
  headerChecksum := u16At bytes 10
  src := bytesAt 4 bytes 12
  dst := bytesAt 4 bytes 16

/-- `Ipv4Header::parse` (`net.rs:715-747`). The total length is read and not looked at. -/
def parse (bytes : List UInt8) : Option (Ipv4Header × List UInt8) :=
  if bytes.length < 20 then none
  else if ihl (u8At bytes 0) < 20 ∨ bytes.length < ihl (u8At bytes 0) then none
  else some (read bytes, bytes.drop (ihl (u8At bytes 0)))

/-- `Ipv4Header::serialize` (`net.rs:753-782`). -/
def serialize (header : Ipv4Header) : List UInt8 :=
  [header.versionIhl, header.dscpEcn] ++ (toBeBytes 2 header.totalLength.toNat ++
    (toBeBytes 2 header.identification.toNat ++ (toBeBytes 2 header.flagsFragment.toNat ++
    ([header.ttl, header.protocol] ++ (toBeBytes 2 header.headerChecksum.toNat ++
    (header.src.toList ++ header.dst.toList))))))

/-- `Ipv4Header::compute_checksum` (`net.rs:787-795`): over the header without options. -/
def computeChecksum (header : Ipv4Header) : UInt16 :=
  UInt16.ofNat (internetChecksum { header with headerChecksum := 0 }.serialize)

/-- `Ipv4Header::verify_checksum` (`net.rs:800-802`). -/
def verifyChecksum (header : Ipv4Header) : Bool := header.computeChecksum == header.headerChecksum

end Ipv4Header

/-- `parse_ipv4_packet` (`ip.rs:254-260`). -/
def parseIpv4Packet (data : List UInt8) : Option (Ipv4Header × List UInt8) :=
  (Ipv4Header.parse data).filter (·.1.verifyChecksum)

/-- The header that `build_ipv4_packet` (`ip.rs:196-219`) fills in. -/
def Ipv4Header.ofPayload (src dst : Ipv4Addr) (protocol ttl : UInt8) (identification : UInt16)
    (payloadLength : Nat) : Ipv4Header :=
  let header : Ipv4Header :=
    { versionIhl := 0x45
      dscpEcn := 0
      totalLength := UInt16.ofNat (min (20 + payloadLength) (2 ^ 16 - 1))
      identification
      flagsFragment := 0x4000
      ttl
      protocol
      headerChecksum := 0
      src
      dst }
  { header with headerChecksum := header.computeChecksum }

/-- `build_ipv4_packet` (`ip.rs:196-228`), for every protocol. -/
def Ipv4Header.buildPacket (src dst : Ipv4Addr) (protocol ttl : UInt8) (identification : UInt16)
    (payload : List UInt8) : List UInt8 :=
  (Ipv4Header.ofPayload src dst protocol ttl identification payload.length).serialize ++ payload

/-! ## ICMP -/

/-- The values of `IcmpType` (`net.rs:958-967`). -/
def IcmpType.echoReply : UInt8 := 0

def IcmpType.destUnreachable : UInt8 := 3

def IcmpType.echoRequest : UInt8 := 8

def IcmpType.timeExceeded : UInt8 := 11

/-- `IcmpHeader` (`net.rs:1015-1024`). -/
structure IcmpHeader where
  icmpType : UInt8
  code : UInt8
  checksum : UInt16
  rest : Vector UInt8 4
  deriving DecidableEq, Repr

namespace IcmpHeader

/-- `IcmpHeader::parse` (`net.rs:1035-1051`). -/
def parse (bytes : List UInt8) : Option (IcmpHeader × List UInt8) :=
  if bytes.length < 8 then none
  else some (⟨u8At bytes 0, u8At bytes 1, u16At bytes 2, bytesAt 4 bytes 4⟩, bytes.drop 8)

/-- `IcmpHeader::serialize` (`net.rs:1055-1069`). -/
def serialize (header : IcmpHeader) : List UInt8 :=
  [header.icmpType, header.code] ++ toBeBytes 2 header.checksum.toNat ++ header.rest.toList

/-- `IcmpHeader::compute_checksum` (`net.rs:1074-1080`). -/
def computeChecksum (header : IcmpHeader) (payload : List UInt8) : UInt16 :=
  UInt16.ofNat (internetChecksum ({ header with checksum := 0 }.serialize ++ payload))

end IcmpHeader

/-! ## UDP -/

/-- `UdpHeader` (`net.rs:1201-1210`). -/
structure UdpHeader where
  srcPort : UInt16
  dstPort : UInt16
  length : UInt16
  checksum : UInt16
  deriving DecidableEq, Repr

/-- `UdpPseudoHeader::to_bytes` and `TcpPseudoHeader::to_bytes` (`net.rs:1155-1175`,
`net.rs:1322-1341`). -/
def pseudoHeader (srcIp dstIp : Ipv4Addr) (protocol : UInt8) (length : UInt16) : List UInt8 :=
  srcIp.toList ++ dstIp.toList ++ [0, protocol] ++ toBeBytes 2 length.toNat

namespace UdpHeader

/-- The fields of a header, read at their offsets (`net.rs:1225-1230`). -/
def read (bytes : List UInt8) : UdpHeader where
  srcPort := u16At bytes 0
  dstPort := u16At bytes 2
  length := u16At bytes 4
  checksum := u16At bytes 6

/-- `UdpHeader::parse` (`net.rs:1221-1232`). The length is read and not looked at. -/
def parse (bytes : List UInt8) : Option (UdpHeader × List UInt8) :=
  if bytes.length < 8 then none else some (read bytes, bytes.drop 8)

/-- `UdpHeader::serialize` (`net.rs:1236-1253`). -/
def serialize (header : UdpHeader) : List UInt8 :=
  toBeBytes 2 header.srcPort.toNat ++ (toBeBytes 2 header.dstPort.toNat ++
    (toBeBytes 2 header.length.toNat ++ toBeBytes 2 header.checksum.toNat))

/-- `UdpHeader::compute_checksum` (`net.rs:1258-1265`). -/
def computeChecksum (header : UdpHeader) (pseudo payload : List UInt8) : UInt16 :=
  UInt16.ofNat (internetChecksum (pseudo ++ { header with checksum := 0 }.serialize ++ payload))

/-- `UdpHeader::verify_checksum` (`net.rs:1269-1271`). -/
def verifyChecksum (header : UdpHeader) (pseudo payload : List UInt8) : Bool :=
  header.computeChecksum pseudo payload == header.checksum

end UdpHeader

/-! ## TCP -/

namespace TcpHeader

/-- `TcpHeader::data_offset` (`net.rs:1478-1480`). -/
def dataOffset (dataOffsetFlags : UInt16) : Nat := (dataOffsetFlags >>> 12).toNat * 4

/-- The fields of a header, read at their offsets (`net.rs:1409-1428`). -/
def read (bytes : List UInt8) : TcpHeader where
  srcPort := u16At bytes 0
  dstPort := u16At bytes 2
  seqNum := u32At bytes 4
  ackNum := u32At bytes 8
  dataOffsetFlags := u16At bytes 12
  window := u16At bytes 14

/-- `TcpHeader::parse` (`net.rs:1400-1430`). -/
def parse (bytes : List UInt8) : Option (TcpHeader × List UInt8) :=
  if bytes.length < 20 then none
  else if dataOffset (u16At bytes 12) < 20 ∨ bytes.length < dataOffset (u16At bytes 12) then none
  else some (read bytes, bytes.drop (dataOffset (u16At bytes 12)))

end TcpHeader

end NexaCore.Net
