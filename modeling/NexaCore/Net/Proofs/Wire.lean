import NexaCore.Net.Datagrams

/-!
# What is built is parsed back

The parsers on the output of the serializers, followed by any bytes: the header reads back and
what follows it is the payload. The parsers take the end of the payload from the end of the
frame, so that bytes after a packet become a part of its payload.
-/

namespace NexaCore.Net

open Misc Segment UInt16 Nat Ipv4Header Vector

/-! ## Fields -/

@[simp]
theorem length_toBeBytes (width value : Nat) : (toBeBytes width value).length = width := by
  induction width generalizing value with
  | zero => rfl
  | succ width ih => rw [toBeBytes, List.length_append, ih, List.length_singleton]

theorem fromBeBytes_toBeBytes (width value : Nat) :
    fromBeBytes (toBeBytes width value) = value % 256 ^ width := by
  induction width generalizing value with
  | zero => simp [toBeBytes, fromBeBytes, mod_one]
  | succ width ih =>
    have front := ih (value / 256)
    unfold fromBeBytes at front ⊢
    have byte : (UInt8.ofNat (value % 256)).toNat = value % 256 := by simp
    rw [toBeBytes, List.foldl_append, front, List.foldl_cons, List.foldl_nil, byte, pow_succ,
      mul_comm (256 ^ width), mod_mul]
    omega

variable {bytes : List UInt8} {offset : Nat}

theorem u16At_of_slice {value : UInt16} (field : slice offset 2 bytes = toBeBytes 2 value.toNat) :
    u16At bytes offset = value := by
  have bound : value.toNat < 256 ^ 2 := value.toNat_lt
  rw [u16At, field, fromBeBytes_toBeBytes, mod_eq_of_lt bound, UInt16.ofNat_toNat]

theorem u32At_of_slice {value : BitVec 32}
    (field : slice offset 4 bytes = toBeBytes 4 value.toNat) : u32At bytes offset = value := by
  have bound : value.toNat < 256 ^ 4 := value.isLt
  rw [u32At, field, fromBeBytes_toBeBytes, mod_eq_of_lt bound, BitVec.ofNat_toNat,
    BitVec.setWidth_eq]

variable {n : Nat}

theorem bytesAt_of_slice {value : Vector UInt8 n} (field : slice offset n bytes = value.toList) :
    bytesAt n bytes offset = value := by
  apply Vector.ext
  intro i bound
  have read : bytes[offset + i]? = some (value.get ⟨i, bound⟩) := by
    rw [← getElem?_slice bound, field, getElem?_toList, getElem?_eq_getElem bound]
    rfl
  rw [bytesAt, getElem_ofFn, List.getD_eq_getElem?_getD, read]
  rfl

theorem u8At_of_slice {value : UInt8} (field : slice offset 1 bytes = [value]) :
    u8At bytes offset = value := by
  have read : bytes[offset + 0]? = some value := by
    rw [← getElem?_slice one_pos, field]
    rfl
  rw [u8At, List.getD_eq_getElem?_getD, ← add_zero offset, read]
  rfl

/-! ## Reading a front part -/

variable {xs : List UInt8} (ys : List UInt8)

theorem u8At_append_left (within : offset < xs.length) :
    u8At (xs ++ ys) offset = u8At xs offset := by
  rw [u8At, u8At, List.getD_eq_getElem?_getD, List.getD_eq_getElem?_getD,
    List.getElem?_append_left within]

theorem u16At_append_left (within : offset + 2 ≤ xs.length) :
    u16At (xs ++ ys) offset = u16At xs offset := by
  rw [u16At, u16At, slice_append_left within]

theorem u32At_append_left (within : offset + 4 ≤ xs.length) :
    u32At (xs ++ ys) offset = u32At xs offset := by
  rw [u32At, u32At, slice_append_left within]

theorem bytesAt_append_left (within : offset + n ≤ xs.length) :
    bytesAt n (xs ++ ys) offset = bytesAt n xs offset := by
  apply Vector.ext
  intro i bound
  rw [bytesAt, bytesAt, Vector.getElem_ofFn, Vector.getElem_ofFn]
  exact u8At_append_left ys (by omega)

/-- The fields of an IPv4 header are those of its first twenty bytes. -/
theorem Ipv4Header.read_append (long : 20 ≤ xs.length) : read (xs ++ ys) = read xs := by
  unfold read
  rw [u8At_append_left ys (by omega), u8At_append_left ys (by omega),
    u16At_append_left ys (by omega), u16At_append_left ys (by omega),
    u16At_append_left ys (by omega), u8At_append_left ys (by omega),
    u8At_append_left ys (by omega), u16At_append_left ys (by omega),
    bytesAt_append_left ys (by omega), bytesAt_append_left ys (by omega)]

/-- The fields of a TCP header that are read stand before its checksum. -/
theorem TcpHeader.read_append (long : 16 ≤ xs.length) : read (xs ++ ys) = read xs := by
  unfold read
  rw [u16At_append_left ys (by omega), u16At_append_left ys (by omega),
    u32At_append_left ys (by omega), u32At_append_left ys (by omega),
    u16At_append_left ys (by omega), u16At_append_left ys (by omega)]

/-! ## Headers -/

theorem EthernetHeader.parse_serialize (header : EthernetHeader) (rest : List UInt8) :
    parse (header.serialize ++ rest) = some (header, rest) := by
  have length : header.serialize.length = 14 := by simp [serialize]
  have dst : bytesAt 6 (header.serialize ++ rest) 0 = header.dst := by
    apply bytesAt_of_slice
    simp [serialize]
  have src : bytesAt 6 (header.serialize ++ rest) 6 = header.src := by
    apply bytesAt_of_slice
    simp [serialize]
  have etherType : u16At (header.serialize ++ rest) 12 = header.etherType := by
    apply u16At_of_slice
    simp [serialize]
  rw [parse, if_neg (by simp [length]), read, dst, src, etherType, List.drop_left' length]

theorem UdpHeader.parse_serialize (header : UdpHeader) (rest : List UInt8) :
    parse (header.serialize ++ rest) = some (header, rest) := by
  have length : header.serialize.length = 8 := by simp [serialize]
  have srcPort : u16At (header.serialize ++ rest) 0 = header.srcPort := by
    apply u16At_of_slice
    simp [serialize]
  have dstPort : u16At (header.serialize ++ rest) 2 = header.dstPort := by
    apply u16At_of_slice
    simp [serialize]
  have datagram : u16At (header.serialize ++ rest) 4 = header.length := by
    apply u16At_of_slice
    simp [serialize]
  have checksum : u16At (header.serialize ++ rest) 6 = header.checksum := by
    apply u16At_of_slice
    simp [serialize]
  rw [parse, if_neg (by simp [length]), read, srcPort, dstPort, datagram, checksum,
    List.drop_left' length]

namespace Ipv4Header

theorem length_serialize (header : Ipv4Header) : header.serialize.length = 20 := by
  simp [serialize]

theorem parse_serialize {header : Ipv4Header} (plain : ihl header.versionIhl = 20)
    (rest : List UInt8) : parse (header.serialize ++ rest) = some (header, rest) := by
  have length := header.length_serialize
  have first : u8At (header.serialize ++ rest) 0 = header.versionIhl := rfl
  have dscpEcn : u8At (header.serialize ++ rest) 1 = header.dscpEcn := rfl
  have totalLength : u16At (header.serialize ++ rest) 2 = header.totalLength := by
    apply u16At_of_slice
    simp [serialize]
  have identification : u16At (header.serialize ++ rest) 4 = header.identification := by
    apply u16At_of_slice
    simp [serialize]
  have flagsFragment : u16At (header.serialize ++ rest) 6 = header.flagsFragment := by
    apply u16At_of_slice
    simp [serialize]
  have ttl : u8At (header.serialize ++ rest) 8 = header.ttl := by
    apply u8At_of_slice
    simp [serialize]
  have protocol : u8At (header.serialize ++ rest) 9 = header.protocol := by
    apply u8At_of_slice
    simp [serialize]
  have checksum : u16At (header.serialize ++ rest) 10 = header.headerChecksum := by
    apply u16At_of_slice
    simp [serialize]
  have src : bytesAt 4 (header.serialize ++ rest) 12 = header.src := by
    apply bytesAt_of_slice
    simp [serialize]
  have dst : bytesAt 4 (header.serialize ++ rest) 16 = header.dst := by
    apply bytesAt_of_slice
    simp [serialize]
  rw [parse, if_neg (by simp [length]), first, plain, if_neg (by simp [length]), read, first,
    dscpEcn, totalLength, identification, flagsFragment, ttl, protocol, checksum, src, dst,
    List.drop_left' length]

/-- The packets that are built pass the check, and all that follows the header is their
payload. -/
theorem parse_buildPacket (src dst : Ipv4Addr) (protocol ttl : UInt8) (identification : UInt16)
    (payload padding : List UInt8) :
    parseIpv4Packet (buildPacket src dst protocol ttl identification payload ++ padding) =
      some (ofPayload src dst protocol ttl identification payload.length, payload ++ padding) := by
  have verified : (ofPayload src dst protocol ttl identification payload.length).verifyChecksum =
      true := by
    simp [ofPayload, verifyChecksum, computeChecksum]
  have plain : ihl (ofPayload src dst protocol ttl identification payload.length).versionIhl =
      20 := by
    simp only [ofPayload]
    decide
  rw [parseIpv4Packet, buildPacket, List.append_assoc, parse_serialize plain, Option.filter_some,
    verified]
  rfl

end Ipv4Header

theorem buildIpv4Packet_eq (src dst : Ipv4Addr) (payload : List UInt8) :
    buildIpv4Packet src dst payload =
      buildPacket src dst IpProtocol.tcp 64 0 payload := by
  have length : min (20 + payload.length) (2 ^ 16 - 1) < 2 ^ 16 := by omega
  have checksum : ∀ data, internetChecksum data < 2 ^ 16 := by
    intro data
    unfold internetChecksum
    omega
  have total : (ofNat (min (20 + payload.length) (2 ^ 16 - 1))).toNat =
      min (20 + payload.length) (2 ^ 16 - 1) := by
    rw [toNat_ofNat', mod_eq_of_lt length]
  have sum : ∀ data, (ofNat (internetChecksum data)).toNat = internetChecksum data := by
    intro data
    rw [toNat_ofNat', mod_eq_of_lt (checksum data)]
  simp only [buildIpv4Packet, buildPacket, ofPayload, serialize,
    computeChecksum, total, sum, List.append_assoc]
  rfl

/-- The header that is parsed from a segment without options. -/
def Segment.header (s : Segment) : TcpHeader where
  srcPort := s.srcPort
  dstPort := s.dstPort
  seqNum := s.seq
  ackNum := s.ack
  dataOffsetFlags := UInt16.ofNat (5 * 2 ^ 12 + s.flags.toNat)
  window := s.window

theorem Segment.flags_header (s : Segment) : s.header.flags = s.flags := by
  have bound := s.flags.toNat_lt
  apply UInt8.toNat_inj.mp
  simp only [header, TcpHeader.flags, UInt16.toNat_toUInt8, UInt16.toNat_and, UInt16.toNat_ofNat']
  have mask : (255 : UInt16).toNat = 2 ^ 8 - 1 := rfl
  rw [mask, and_two_pow_sub_one_eq_mod]
  omega

theorem TcpHeader.parse_headerBytes {s : Segment} (plain : s.options = []) (checksum : Nat)
    (rest : List UInt8) : parse (s.headerBytes checksum ++ rest) = some (s.header, rest) := by
  have length : (s.headerBytes checksum).length = 20 := by simp [headerBytes]
  have bound := s.flags.toNat_lt
  have offsetFlags : u16At (s.headerBytes checksum ++ rest) 12 = s.header.dataOffsetFlags := by
    apply u16At_of_slice
    have value : s.header.dataOffsetFlags.toNat = 5 * 2 ^ 12 + s.flags.toNat := by
      rw [header, toNat_ofNat', mod_eq_of_lt (by omega)]
    rw [value]
    simp [headerBytes, plain]
  have offset : dataOffset s.header.dataOffsetFlags = 20 := by
    have shifted : (20480 + s.flags.toNat) % 65536 / 4096 = 5 := by omega
    simp [dataOffset, header, shiftRight_eq_div_pow, shifted]
  have srcPort : u16At (s.headerBytes checksum ++ rest) 0 = s.srcPort := by
    apply u16At_of_slice
    simp [headerBytes]
  have dstPort : u16At (s.headerBytes checksum ++ rest) 2 = s.dstPort := by
    apply u16At_of_slice
    simp [headerBytes]
  have seq : u32At (s.headerBytes checksum ++ rest) 4 = s.seq := by
    apply u32At_of_slice
    simp [headerBytes]
  have ack : u32At (s.headerBytes checksum ++ rest) 8 = s.ack := by
    apply u32At_of_slice
    simp [headerBytes]
  have window : u16At (s.headerBytes checksum ++ rest) 14 = s.window := by
    apply u16At_of_slice
    simp [headerBytes]
  rw [parse, if_neg (by simp [length]), offsetFlags, offset, if_neg (by simp [length]), read,
    srcPort, dstPort, seq, ack, offsetFlags, window, List.drop_left' length]
  rfl

end NexaCore.Net
