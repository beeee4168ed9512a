import NexaCore.Net.Proofs.Wire
import NexaCore.Net.Proofs.Service
import NexaCore.Net.Tcp.Proofs.Steps

/-!
# Frames that arrive

What `handle_frame` makes of the packets that the builders build. No parser looks at a length
field, so that the padding of a short frame is taken for data; and no transport checksum is
looked at, only that of the IPv4 header.
-/

namespace NexaCore.Net

open Misc Std List Ipv4Header TcpControlBlock TcpSocketTable TcpHeader
open TcpFlags ExtTreeMap Option EtherType

/-! ## Where a payload goes -/

namespace TcpSocketTable

/-- The data of a segment goes to a receive buffer: the segment is the next one of an established
connection. -/
def Appends (t : TcpSocketTable) (header : TcpHeader) (srcIp dstIp : Ipv4Addr) : Prop :=
  ¬TcpFlags.Has header.flags rst ∧
    ∃ c, t.connGet (segmentKey header srcIp dstIp) = some c ∧ c.state = .established ∧
      c.rcvNxt = header.seqNum

end TcpSocketTable

namespace TcpControlBlock

variable {c : TcpControlBlock} {header : TcpHeader}

theorem received_afterAck (c : TcpControlBlock) (header : TcpHeader) :
    (c.afterAck header).1.rcvNxt = c.rcvNxt ∧ (c.afterAck header).1.recvBuffer = c.recvBuffer := by
  rcases c.afterAck_cases header with ⟨_, _, _, eq⟩ | ⟨-, -, _, eq⟩ <;> rw [eq] <;>
    exact ⟨rfl, rfl⟩

theorem processEstablished_of_ne (other : header.seqNum ≠ c.rcvNxt)
    (payload payload' : List UInt8) :
    c.processEstablished header payload = c.processEstablished header payload' := by
  have ignored : ∀ payload, (c.afterAck header).1.receiveData header payload =
      ((c.afterAck header).1, []) := by
    intro payload
    rw [receiveData, if_neg]
    rw [(c.received_afterAck header).1]
    exact fun next => other next.2
  rw [processEstablished_eq, processEstablished_eq, ignored, ignored]

section

variable (payload : List UInt8) (next : header.seqNum = c.rcvNxt)

include payload next

theorem received_receiveData :
    (c.receiveData header payload).1.recvBuffer = c.recvBuffer ++ payload ∧
      (c.receiveData header payload).1.rcvNxt = c.rcvNxt + BitVec.ofNat 32 payload.length := by
  unfold receiveData
  by_cases empty : payload = []
  · rw [if_neg fun data => data.1 empty, empty, append_nil]
    exact ⟨rfl, (BitVec.add_zero _).symm⟩
  · rw [if_pos ⟨empty, next⟩]
    exact ⟨rfl, rfl⟩

/-- The next data is appended and counted, and a FIN behind it is counted. -/
theorem received_processEstablished :
    (c.processEstablished header payload).1.recvBuffer = c.recvBuffer ++ payload ∧
      (c.processEstablished header payload).1.rcvNxt = c.rcvNxt + BitVec.ofNat 32 payload.length +
          if TcpFlags.Has header.flags fin then 1 else 0 := by
  obtain ⟨nxt, buffer⟩ := c.received_afterAck header
  obtain ⟨data, counted⟩ := received_receiveData payload (next.trans nxt.symm)
  rw [buffer] at data
  rw [nxt] at counted
  rw [← data, ← counted]
  rw [processEstablished_eq]
  dsimp only
  split
  · exact ⟨rfl, rfl⟩
  · exact ⟨rfl, (BitVec.add_zero _).symm⟩

end

end TcpControlBlock

namespace TcpSocketTable

variable {t : TcpSocketTable} {header : TcpHeader} {srcIp dstIp : Ipv4Addr}

theorem handleSegment_of_not_appends (not : ¬t.Appends header srcIp dstIp)
    (payload payload' : List UInt8) (now : Nat) :
    t.handleSegment header payload srcIp dstIp now =
      t.handleSegment header payload' srcIp dstIp now := by
  unfold handleSegment
  dsimp only
  split
  · rfl
  · rename_i noReset
    split
    · rename_i c found
      have same : c.processSegment header payload now = c.processSegment header payload' now := by
        unfold processSegment
        cases state : c.state with
        | established =>
          have other : header.seqNum ≠ c.rcvNxt := fun next =>
            not ⟨noReset, c, found, state, next.symm⟩
          rw [processEstablished_of_ne other payload payload']
        | _ => rfl
      rw [same]
    · rfl

theorem connGet_handleSegment_of_established {c : TcpControlBlock}
    (noReset : ¬TcpFlags.Has header.flags rst)
    (found : t.connGet (segmentKey header srcIp dstIp) = some c) (state : c.state = .established)
    (payload : List UInt8) (now : Nat) :
    (t.handleSegment header payload srcIp dstIp now).1.connGet (segmentKey header srcIp dstIp) =
      some (c.processEstablished header payload).1 := by
  have found' : connGet { t with lastNow := now } (segmentKey header srcIp dstIp) = some c := found
  unfold handleSegment
  dsimp only
  rw [if_neg noReset, found']
  dsimp only [processSegment]
  rw [state]
  dsimp only [Prod.map_fst, dispose]
  rw [connGet_connInsert, if_pos rfl]

theorem handleSegment_ne_of_appends (appends : t.Appends header srcIp dstIp)
    (payload : List UInt8) {padding : List UInt8} (padded : padding ≠ []) (now : Nat) :
    (t.handleSegment header (payload ++ padding) srcIp dstIp now).1 ≠
      (t.handleSegment header payload srcIp dstIp now).1 := by
  obtain ⟨noReset, c, found, state, next⟩ := appends
  intro equal
  have blocks := congrArg (connGet · (segmentKey header srcIp dstIp)) equal
  rw [connGet_handleSegment_of_established noReset found state,
    connGet_handleSegment_of_established noReset found state] at blocks
  have buffers := congrArg recvBuffer (some.inj blocks)
  have received := fun payload => (received_processEstablished payload next.symm).1
  rw [received, received, ← append_assoc] at buffers
  exact padded (List.append_right_eq_self.mp buffers)

end TcpSocketTable

theorem UdpSocketTable.handlePacket_eq_iff (t : UdpSocketTable) (header : UdpHeader)
    (payload padding : List UInt8) (srcIp : Ipv4Addr) :
    t.handlePacket header (payload ++ padding) srcIp = t.handlePacket header payload srcIp ↔
      padding = [] ∨ header.dstPort ∉ t.sockets := by
  constructor
  · intro equal
    by_cases bound : header.dstPort ∈ t.sockets
    · left
      obtain ⟨socket, found⟩ := isSome_iff_exists.mp
        (isSome_getElem?_iff_mem.mpr bound)
      unfold handlePacket at equal
      simp only [found] at equal
      have queues := congrArg (fun table => table.sockets[header.dstPort]?) equal
      simp only [getElem?_insert_eq, if_true, some.injEq, UdpSocket.mk.injEq,
        append_cancel_left_eq, List.cons.injEq, Prod.mk.injEq, and_true, true_and,
        append_right_eq_self] at queues
      exact queues
    · exact .inr bound
  · rintro (rfl | unbound)
    · rw [append_nil]
    · unfold handlePacket
      rw [getElem?_eq_none unbound]

/-! ## Padding -/

namespace NetworkService

variable {s : NetworkService} {interface : Nat}

/-- A packet in a frame, followed by the padding of the frame. -/
def framed (dstMac srcMac : MacAddress) (packet padding : List UInt8) : List UInt8 :=
  (EthernetHeader.mk dstMac srcMac ipv4).serialize ++ (packet ++ padding)

theorem handleFrame_framed {dstMac srcMac : MacAddress} {packet padding payload : List UInt8}
    {header : Ipv4Header} (parsed : parseIpv4Packet (packet ++ padding) = some (header, payload))
    (now : Nat) :
    s.handleFrame interface (framed dstMac srcMac packet padding) now =
      (s.recordRx interface (framed dstMac srcMac packet padding).length).handleIpPacket interface
        header payload now := by
  unfold handleFrame
  rw [framed, EthernetHeader.parse_serialize]
  simp only [parsed]
  rfl

def udpPacket (srcIp dstIp : Ipv4Addr) (srcPort dstPort : UInt16) (ttl : UInt8)
    (identification : UInt16) (payload : List UInt8) : List UInt8 :=
  Ipv4Header.buildPacket srcIp dstIp IpProtocol.udp ttl identification
    (buildUdpPacket srcIp dstIp srcPort dstPort payload)

theorem tcp_handleFrame (dstMac srcMac : MacAddress) {segment : Segment}
    (plain : segment.options = []) (padding : List UInt8) (now : Nat) :
    (s.handleFrame interface (framed dstMac srcMac segment.packet padding) now).1.tcp =
      (s.tcp.handleSegment segment.header (segment.payload ++ padding) segment.srcIp segment.dstIp
        now).1 := by
  rw [Segment.packet, buildIpv4Packet_eq, plain, nil_append,
    handleFrame_framed (parse_buildPacket ..), append_assoc (segment.headerBytes _),
    handleIpPacket_tcp rfl (parse_headerBytes plain _ _), tcp_emitTcpOutputs]
  rfl

/-- The payload of a datagram or a segment reaches the sockets as it was given to the builder,
whatever follows the packet in its frame, exactly when nothing follows it or when the payload
goes to no socket. In a stream the padding is appended and acknowledged with the payload. -/
theorem padding_ignored_iff (s : NetworkService) (interface : Nat) (dstMac srcMac : MacAddress)
    (srcIp dstIp : Ipv4Addr) (srcPort dstPort : UInt16) (payload padding : List UInt8)
    (now : Nat) :
    (∀ ttl identification,
      (s.handleFrame interface (framed dstMac srcMac
        (udpPacket srcIp dstIp srcPort dstPort ttl identification payload) padding) now).1.udp =
        s.udp.handlePacket (UdpHeader.ofPayload srcIp dstIp srcPort dstPort payload) payload srcIp ↔
      padding = [] ∨ dstPort ∉ s.udp.sockets) ∧
    ∀ seq ack flags window segment,
      buildTcpSegment srcIp dstIp srcPort dstPort seq ack flags window payload = segment →
      ((s.handleFrame interface (framed dstMac srcMac segment.packet padding) now).1.tcp =
        (s.tcp.handleSegment segment.header payload srcIp dstIp now).1 ↔
      padding = [] ∨ ¬s.tcp.Appends segment.header srcIp dstIp) ∧
      ∀ c, ¬TcpFlags.Has flags rst →
        s.tcp.connGet (TcpSocketTable.segmentKey segment.header srcIp dstIp) = some c →
        c.state = .established → c.rcvNxt = seq →
        ∃ c', (s.handleFrame interface (framed dstMac srcMac segment.packet padding)
          now).1.tcp.connGet
            (TcpSocketTable.segmentKey segment.header srcIp dstIp) = some c' ∧
          c'.recvBuffer = c.recvBuffer ++ (payload ++ padding) ∧
          c'.rcvNxt = c.rcvNxt + BitVec.ofNat 32 (payload ++ padding).length +
            if TcpFlags.Has flags fin then 1 else 0 := by
  constructor
  · intro ttl identification
    have parsed : UdpHeader.parse (buildUdpPacket srcIp dstIp srcPort dstPort payload ++ padding) =
        some (UdpHeader.ofPayload srcIp dstIp srcPort dstPort payload, payload ++ padding) := by
      rw [buildUdpPacket, append_assoc, UdpHeader.parse_serialize]
    rw [udpPacket, handleFrame_framed (Ipv4Header.parse_buildPacket ..),
      handleIpPacket_udp rfl parsed]
    exact UdpSocketTable.handlePacket_eq_iff _ _ _ _ _
  · rintro seq ack flags window segment rfl
    rw [tcp_handleFrame dstMac srcMac rfl]
    constructor
    · constructor
      · intro equal
        by_contra both
        obtain ⟨padded, appends⟩ := not_or.mp both
        exact handleSegment_ne_of_appends (not_not.mp appends) payload padded now
          equal
      · rintro (rfl | not)
        · rw [append_nil]
          rfl
        · exact congrArg Prod.fst (handleSegment_of_not_appends not _ payload now)
    · intro c noReset found state next
      have same := Segment.flags_header
        (buildTcpSegment srcIp dstIp srcPort dstPort seq ack flags window payload)
      have expected : (buildTcpSegment srcIp dstIp srcPort dstPort seq ack flags window
        payload).header.seqNum = c.rcvNxt := next.symm
      have received := received_processEstablished (payload ++ padding) expected
      rw [same] at received
      refine ⟨_, connGet_handleSegment_of_established ?_ found state _ now, received⟩
      rw [same]
      exact noReset

/-- The ends of a connection. -/
def host : SocketApiAddr := ⟨.ofFn fun i => [10, 0, 0, 1].getD i 0, 80⟩

def peer : SocketApiAddr := ⟨.ofFn fun i => [10, 0, 0, 2].getD i 0, 5000⟩

/-- A service with a bound UDP port and an established connection that has received nothing. -/
def receiving : NetworkService where
  udp := ⟨insert ∅ 53 ⟨53, none, []⟩⟩
  tcp := TcpSocketTable.new.connInsert (host, peer)
    { TcpControlBlock.newSynReceived host peer 6 100 with state := .established }

def fromPeer (packet padding : List UInt8) : List UInt8 :=
  framed (Vector.replicate 6 1) (Vector.replicate 6 2) packet padding

def peerSegment (payload : List UInt8) : Segment :=
  buildTcpSegment peer.ip host.ip peer.port host.port 7 101 TcpFlags.ack 1000 payload

theorem padding_ignored_iff_unpadded :
    ∃ c', (receiving.handleFrame 0 (fromPeer (peerSegment [1, 2]).packet []) 5).1.tcp.connGet
        (host, peer) = some c' ∧ c'.recvBuffer = [1, 2] ∧ c'.rcvNxt = 9 :=
  ((padding_ignored_iff receiving 0 _ _ peer.ip host.ip peer.port host.port [1, 2] [] 5).2 7 101
    TcpFlags.ack 1000 _ rfl).2
    { newSynReceived host peer 6 100 with state := .established } (by decide)
    (by decide +kernel) rfl (by decide)

/-- A segment without data in a frame of the smallest size adds six bytes to the stream, and a
datagram its padding to its payload. -/
theorem padding_delivered :
    ((receiving.handleFrame 0 (fromPeer (peerSegment []).packet (List.replicate 6 0))
    5).1.tcp.connGet
      (host, peer)).map (fun c => (c.recvBuffer, c.rcvNxt)) = some (List.replicate 6 0, 13) ∧
    ((receiving.handleFrame 0 (fromPeer (udpPacket peer.ip host.ip 9 53 64 0 [1])
      (List.replicate 17 0)) 5).1.udp.sockets[(53 : UInt16)]?).map (·.recvQueue) =
      some [(⟨peer.ip, 9⟩, 1 :: List.replicate 17 0)] := by
  constructor <;> decide +kernel

end NetworkService

/-! ## Checksums -/

/-- A transport header with other bytes at its checksum. -/
def withChecksum (offset : Nat) (checksum : UInt16) (bytes : List UInt8) : List UInt8 :=
  bytes.take offset ++ (toBeBytes 2 checksum.toNat ++ bytes.drop (offset + 2))

theorem length_withChecksum {offset : Nat} {bytes : List UInt8} (long : offset + 2 ≤ bytes.length)
    (checksum : UInt16) : (withChecksum offset checksum bytes).length = bytes.length := by
  simp only [withChecksum, length_append, length_take, length_toBeBytes, length_drop]
  omega

theorem drop_withChecksum {offset n : Nat} {bytes : List UInt8} (after : offset + 2 ≤ n)
    (long : offset + 2 ≤ bytes.length) (checksum : UInt16) :
    (withChecksum offset checksum bytes).drop n = bytes.drop n := by
  have front : (bytes.take offset ++ toBeBytes 2 checksum.toNat).length = offset + 2 := by
    simp only [length_append, length_take, length_toBeBytes]
    omega
  rw [withChecksum, ← append_assoc, drop_append, front,
    drop_of_length_le (by omega), nil_append, drop_drop]
  congr 1
  omega

/-- The checksum of a TCP segment over its pseudo-header, as `TcpHeader::verify_checksum`
(`net.rs:1496-1498`) checks it; the service does not call it. -/
def verifyTcpChecksum (srcIp dstIp : Ipv4Addr) (segment : List UInt8) : Bool :=
  UInt16.ofNat (internetChecksum (pseudoHeader srcIp dstIp IpProtocol.tcp
    (UInt16.ofNat segment.length) ++ withChecksum 16 0 segment)) == u16At segment 16

theorem TcpHeader.parse_withChecksum {segment : List UInt8} (long : 18 ≤ segment.length)
    (checksum : UInt16) : parse (withChecksum 16 checksum segment) = parse segment := by
  have front : (segment.take 16).length = 16 := by simp; omega
  have fields : read (withChecksum 16 checksum segment) = read segment := by
    conv_rhs => rw [← take_append_drop 16 segment]
    rw [withChecksum, read_append _ (Nat.le_of_eq front.symm),
      read_append _ (Nat.le_of_eq front.symm)]
  have offset : u16At (withChecksum 16 checksum segment) 12 = u16At segment 12 :=
    congrArg dataOffsetFlags fields
  unfold parse
  rw [length_withChecksum long, fields, offset]
  split
  · rfl
  · split
    · rfl
    · rename_i enough
      rw [drop_withChecksum (by omega) long]

theorem UdpHeader.read_withChecksum {segment : List UInt8} (long : 8 ≤ segment.length)
    (checksum : UInt16) :
    (read (withChecksum 6 checksum segment)).srcPort = (read segment).srcPort ∧
      (read (withChecksum 6 checksum segment)).dstPort = (read segment).dstPort := by
  have front : (segment.take 6).length = 6 := by simp; omega
  have field : ∀ offset, offset + 2 ≤ 6 →
      u16At (withChecksum 6 checksum segment) offset = u16At segment offset := by
    intro offset within
    conv_rhs => rw [← take_append_drop 6 segment]
    rw [withChecksum, u16At_append_left _ (by omega), u16At_append_left _ (by omega)]
  exact ⟨field 0 (by omega), field 2 (by omega)⟩

namespace NetworkService

/-- A frame that is cut at the ends of its Ethernet and IPv4 headers. -/
structure CarriesIpv4 (ethernet header : List UInt8) : Prop where
  ethernetLength : ethernet.length = 14
  etherType : u16At ethernet 12 = ipv4
  headerLength : Ipv4Header.ihl (u8At header 0) = header.length
  minimal : 20 ≤ header.length

theorem handleFrame_carries {s : NetworkService} {ethernet header : List UInt8}
    (carries : CarriesIpv4 ethernet header) (interface : Nat) (segment : List UInt8) (now : Nat) :
    s.handleFrame interface (ethernet ++ (header ++ segment)) now =
      if (Ipv4Header.read header).verifyChecksum then
        (s.recordRx interface (ethernet ++ (header ++ segment)).length).handleIpPacket interface
          (Ipv4Header.read header) segment now
      else (s.recordRx interface (ethernet ++ (header ++ segment)).length, []) := by
  obtain ⟨ethernetLength, etherType, headerLength, minimal⟩ := carries
  have frame : EthernetHeader.parse (ethernet ++ (header ++ segment)) =
      some (EthernetHeader.read (ethernet ++ (header ++ segment)), header ++ segment) := by
    rw [EthernetHeader.parse, if_neg (by simp; omega), drop_left' ethernetLength]
  have ipv4 : (EthernetHeader.read (ethernet ++ (header ++ segment))).etherType =
      ipv4 := by
    rw [← etherType]
    exact u16At_append_left _ (by omega)
  have packet : Ipv4Header.parse (header ++ segment) = some (Ipv4Header.read header, segment) := by
    rw [Ipv4Header.parse, u8At_append_left _ (by omega), if_neg (by simp; omega), headerLength,
      if_neg (by simp; omega), Ipv4Header.read_append _ minimal, drop_left]
  unfold handleFrame parseIpv4Packet
  simp only [frame, ipv4, packet, filter_some]
  cases (Ipv4Header.read header).verifyChecksum <;> rfl

/-- A frame whose IPv4 header does not pass its checksum is counted and dropped; the checksums of
TCP and UDP make no difference. -/
theorem corrupted_headers_dropped (s : NetworkService) (interface : Nat)
    (ethernet header segment : List UInt8) (carries : CarriesIpv4 ethernet header) (now : Nat) :
    ((Ipv4Header.read header).verifyChecksum = false →
      s.handleFrame interface (ethernet ++ (header ++ segment)) now =
        (s.recordRx interface (ethernet ++ (header ++ segment)).length, [])) ∧
    ((Ipv4Header.read header).protocol = IpProtocol.tcp → 18 ≤ segment.length → ∀ checksum,
      s.handleFrame interface (ethernet ++ (header ++ withChecksum 16 checksum segment)) now =
        s.handleFrame interface (ethernet ++ (header ++ segment)) now) ∧
    ((Ipv4Header.read header).protocol = IpProtocol.udp → 8 ≤ segment.length → ∀ checksum,
      s.handleFrame interface (ethernet ++ (header ++ withChecksum 6 checksum segment)) now =
        s.handleFrame interface (ethernet ++ (header ++ segment)) now) := by
  refine ⟨?_, ?_, ?_⟩
  · intro corrupted
    rw [handleFrame_carries carries, corrupted]
    rfl
  · intro tcp long checksum
    rw [handleFrame_carries carries, handleFrame_carries carries, length_append,
      length_append, length_withChecksum long, length_append, length_append]
    have same := parse_withChecksum long checksum
    cases parsed : TcpHeader.parse segment with
    | none =>
      rw [handleIpPacket_tcp_none tcp parsed, handleIpPacket_tcp_none tcp (same.trans parsed)]
    | some found =>
      rw [handleIpPacket_tcp tcp parsed, handleIpPacket_tcp tcp (same.trans parsed)]
  · intro udp long checksum
    rw [handleFrame_carries carries, handleFrame_carries carries, length_append,
      length_append, length_withChecksum long, length_append, length_append]
    have parsed : UdpHeader.parse segment = some (UdpHeader.read segment, segment.drop 8) := by
      rw [UdpHeader.parse, if_neg (by omega)]
    have parsed' : UdpHeader.parse (withChecksum 6 checksum segment) =
        some (UdpHeader.read (withChecksum 6 checksum segment), segment.drop 8) := by
      rw [UdpHeader.parse, length_withChecksum long, if_neg (by omega),
        drop_withChecksum (Nat.le_refl 8) long]
    obtain ⟨srcPort, dstPort⟩ := UdpHeader.read_withChecksum long checksum
    rw [handleIpPacket_udp udp parsed, handleIpPacket_udp udp parsed']
    simp only [UdpSocketTable.handlePacket, srcPort, dstPort]

/-- The header of a packet of `len` bytes from the peer, with some bits of its checksum flipped. -/
def peerHeader (protocol : UInt8) (len : Nat) (flipped : UInt16) : List UInt8 :=
  let header := Ipv4Header.ofPayload peer.ip host.ip protocol 64 0 len
  { header with headerChecksum := header.headerChecksum ^^^ flipped }.serialize

def ethernetBytes : List UInt8 := List.replicate 12 0 ++ [0x08, 0x00]

theorem carriesIpv4_peerHeader (protocol : UInt8) (len : Nat) (flipped : UInt16) :
    CarriesIpv4 ethernetBytes (peerHeader protocol len flipped) where
  ethernetLength := rfl
  etherType := by decide
  headerLength := by
    have first : u8At (peerHeader protocol len flipped) 0 = 0x45 := rfl
    rw [first, peerHeader, length_serialize]
    decide
  minimal := by rw [peerHeader, length_serialize]

def corruptedDatagram : List UInt8 := (UdpHeader.mk 9 53 9 1).serialize ++ [1]

/-- The bytes of a segment of the connection, with one byte of data and the checksum zero. -/
def corruptedSegment : List UInt8 := (peerSegment [1]).headerBytes 0 ++ [1]

theorem corrupted_headers_dropped_peerHeader :
    receiving.handleFrame 0
      (ethernetBytes ++ (peerHeader IpProtocol.tcp 21 1 ++ corruptedSegment)) 5 =
      (receiving.recordRx 0 55, []) ∧
    ((receiving.handleFrame 0 (ethernetBytes ++ (peerHeader IpProtocol.tcp 21 0 ++
      withChecksum 16 7 corruptedSegment)) 5).1.tcp.connGet (host, peer)).map (·.recvBuffer) =
        some [1] ∧
    ((receiving.handleFrame 0 (ethernetBytes ++ (peerHeader IpProtocol.udp 9 0 ++
      withChecksum 6 7 corruptedDatagram)) 5).1.udp.sockets[(53 : UInt16)]?).map (·.recvQueue) =
        some [(⟨peer.ip, 9⟩, [1])] := by
  have segment := corrupted_headers_dropped receiving 0 _ _ corruptedSegment
    (carriesIpv4_peerHeader IpProtocol.tcp 21 0) 5
  have datagram := corrupted_headers_dropped receiving 0 _ _ corruptedDatagram
    (carriesIpv4_peerHeader IpProtocol.udp 9 0) 5
  refine ⟨(corrupted_headers_dropped receiving 0 _ _ _
    (carriesIpv4_peerHeader IpProtocol.tcp 21 1) 5).1 (by decide +kernel), ?_, ?_⟩
  · rw [segment.2.1 (by decide +kernel) (by decide +kernel) 7]
    decide +kernel
  · rw [datagram.2.2 (by decide +kernel) (by decide +kernel) 7]
    decide +kernel

/-- A datagram with a checksum that is not zero and does not verify is delivered, and the data of
a segment whose checksum does not verify is received and acknowledged. -/
theorem corrupted_data_delivered :
    (UdpHeader.mk 9 53 9 1).verifyChecksum (pseudoHeader peer.ip host.ip IpProtocol.udp 9)
    [1] = false ∧
    ((receiving.handleFrame 0 (fromPeer (Ipv4Header.buildPacket peer.ip host.ip IpProtocol.udp 64 0
      corruptedDatagram) []) 5).1.udp.sockets[(53 : UInt16)]?).map (·.recvQueue) =
      some [(⟨peer.ip, 9⟩, [1])] ∧
    verifyTcpChecksum peer.ip host.ip corruptedSegment = false ∧
    ((receiving.handleFrame 0 (fromPeer (Ipv4Header.buildPacket peer.ip host.ip IpProtocol.tcp 64 0
      corruptedSegment) []) 5).1.tcp.connGet (host, peer)).map (fun c => (c.recvBuffer, c.rcvNxt)) =
      some ([1], 8) := by
  refine ⟨by decide +kernel, by decide +kernel, by decide +kernel, by decide +kernel⟩

end NetworkService

end NexaCore.Net
