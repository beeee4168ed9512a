import NexaCore.Net.Arp
import NexaCore.Net.Datagrams
import NexaCore.Net.Tcp.SocketTable

/-!
# The network service

Embedding of `NetworkService` (`nexacore-net/src/service.rs`): the frames that arrive, the
requests of the socket layer and the timer, over the ARP, ICMP, UDP and TCP tables. A `Connect`
is answered later: the service keeps its handle and its connection until the TCP table says
what has become of it. The routing table is filled and never looked at, and is left out.
-/

namespace NexaCore.Net

open Std Vector

/-- `EPHEMERAL_PORT_START` and `EPHEMERAL_PORT_END` (`service.rs:52-54`). -/
def ephemeralPortStart : UInt16 := 49152

def ephemeralPortEnd : UInt16 := 65534

/-! ## Requests and responses -/

/-- `SocketOption` (`socket.rs:143-176`). -/
inductive SocketOption where
  | reuseAddr (enabled : Bool)
  | keepAlive (enabled : Bool)
  | noDelay (enabled : Bool)
  | recvTimeout (us : Nat)
  | sendTimeout (us : Nat)
  | broadcast (enabled : Bool)
  deriving DecidableEq, Repr

/-- `SocketRequest` (`socket.rs:286-452`) with the fields the service reads. -/
inductive SocketRequest where
  | socket
  | bind (handle : Nat) (addr : SocketApiAddr)
  | listen (handle backlog : Nat)
  | accept (handle : Nat)
  | connect (handle : Nat) (addr : SocketApiAddr)
  | send (handle : Nat) (data : List UInt8)
  | recv (handle maxLen : Nat)
  | sendTo (handle : Nat) (data : List UInt8) (addr : SocketApiAddr)
  | recvFrom (handle : Nat)
  | close (handle : Nat)
  | getSockName (handle : Nat)
  | getPeerName (handle : Nat)
  | setSockOpt (handle : Nat) (option : SocketOption)
  | shutdown (handle : Nat)
  | resolve (hostname : String)
  | listSockets
  deriving DecidableEq, Repr

/-- `SocketResponse` (`socket.rs:465-502`), as far as the service gives it. -/
inductive SocketResponse where
  | ok (count : Nat)
  | handle (handle : Nat)
  | data (data : List UInt8)
  | dataFrom (data : List UInt8) (addr : SocketApiAddr)
  | addresses (addrs : List SocketApiAddr)
  | error (error : NetError)
  | socketList
  | pending
  deriving DecidableEq, Repr

/-- `ServiceOutput` (`service.rs:82-92`). -/
inductive ServiceOutput where
  | sendFrame (interface : Nat) (data : List UInt8)
  | socketResponse (response : SocketResponse)
  deriving DecidableEq, Repr

/-! ## The state -/

/-- `IfaceCounters` (`service.rs:67-78`). -/
structure IfaceCounters where
  rxBytes : Nat := 0
  txBytes : Nat := 0
  rxFrames : Nat := 0
  txFrames : Nat := 0
  deriving DecidableEq, Repr

/-- The fields of `InterfaceConfig` (`ip.rs:46-58`) that the service reads. -/
structure InterfaceConfig where
  ip : Ipv4Addr
  mac : MacAddress
  deriving DecidableEq, Repr

/-- `SocketOptions` (`service.rs:192-205`). -/
structure SocketOptions where
  reuseAddr : Bool := false
  keepAlive : Bool := false
  noDelay : Bool := false
  recvTimeoutUs : Nat := 0
  sendTimeoutUs : Nat := 0
  broadcast : Bool := false
  deriving DecidableEq, Repr

/-- `SocketOptions::apply` (`service.rs:209-221`). -/
def SocketOptions.apply (options : SocketOptions) : SocketOption → SocketOptions
  | .reuseAddr enabled => { options with reuseAddr := enabled }
  | .keepAlive enabled => { options with keepAlive := enabled }
  | .noDelay enabled => { options with noDelay := enabled }
  | .recvTimeout us => { options with recvTimeoutUs := us }
  | .sendTimeout us => { options with sendTimeoutUs := us }
  | .broadcast enabled => { options with broadcast := enabled }

/-- `DnsCacheEntry` (`dns.rs:74-81`). -/
structure DnsCacheEntry where
  addresses : List Ipv4Addr
  ttl : Nat
  cachedAt : Nat
  deriving DecidableEq, Repr

/-- The cache of `DnsResolver` (`dns.rs:116-123`): the entry of a name in any case. The service
only reads it. -/
structure DnsResolver where
  cache : String → Option DnsCacheEntry := fun _ => none

/-- `resolve_cached` (`dns.rs:140-148`). -/
def DnsResolver.resolveCached (dns : DnsResolver) (name : String) (now : Nat) :
    Option (List Ipv4Addr) :=
  (dns.cache name).bind fun entry =>
    if now - entry.cachedAt ≥ entry.ttl then none else some entry.addresses

/-- `NetworkService` (`service.rs:110-173`). -/
structure NetworkService where
  interfaces : List InterfaceConfig := []
  counters : List IfaceCounters := []
  arp : ArpTable := { maxEntries := arpMaxEntries }
  icmp : IcmpHandler := {}
  udp : UdpSocketTable := {}
  tcp : TcpSocketTable := TcpSocketTable.new
  dns : DnsResolver := {}
  nextHandle : Nat := 1
  socketState : ExtTreeMap Nat TcpConnectionKey := ∅
  socketOptions : ExtTreeMap Nat SocketOptions := ∅
  nextEphemeralPort : UInt16 := ephemeralPortStart
  pendingTx : List ServiceOutput := []
  pendingConnect : Option (Nat × TcpConnectionKey) := none

namespace NetworkService

/-- `take_pending_tx` (`service.rs:263-265`). -/
def takePendingTx (s : NetworkService) : List ServiceOutput × NetworkService :=
  (s.pendingTx, { s with pendingTx := [] })

/-- `add_interface` (`service.rs:270-281`). -/
def addInterface (s : NetworkService) (config : InterfaceConfig) : NetworkService :=
  { s with interfaces := s.interfaces ++ [config], counters := s.counters ++ [{}] }

/-- `record_rx` (`service.rs:292-299`). -/
def recordRx (s : NetworkService) (interface length : Nat) : NetworkService :=
  { s with counters := s.counters.modify interface fun c =>
      { c with rxFrames := c.rxFrames + 1, rxBytes := min (c.rxBytes + length) (2 ^ 64 - 1) } }

/-- `record_tx` (`service.rs:303-310`). -/
def recordTx (s : NetworkService) (interface length : Nat) : NetworkService :=
  { s with counters := s.counters.modify interface fun c =>
      { c with txFrames := c.txFrames + 1, txBytes := min (c.txBytes + length) (2 ^ 64 - 1) } }

/-- The hardware address of an interface (`service.rs:329-332`). -/
def macOf (s : NetworkService) (interface : Nat) : MacAddress :=
  (s.interfaces[interface]?).elim (replicate 6 0) (·.mac)

/-- The address of an interface (`service.rs:333-336`). -/
def ipOf (s : NetworkService) (interface : Nat) : Ipv4Addr :=
  (s.interfaces[interface]?).elim (replicate 4 0) (·.ip)

/-! ## Sending -/

/-- A frame is counted and handed out. -/
def pushFrame (interface : Nat) (state : NetworkService × List ServiceOutput)
    (frame : List UInt8) : NetworkService × List ServiceOutput :=
  (state.1.recordTx interface frame.length, state.2 ++ [.sendFrame interface frame])

/-- `build_arp_request_frame` (`service.rs:809-824`). -/
def buildArpRequestFrame (targetIp : Ipv4Addr) (ourMac : MacAddress) (ourIp : Ipv4Addr) :
    List UInt8 :=
  (EthernetHeader.mk (replicate 6 0xFF) ourMac EtherType.arp).serialize ++
    (ArpTable.buildRequest ourMac ourIp targetIp).serialize

/-- `wrap_in_ethernet` (`service.rs:830-860`). -/
def wrapInEthernet (s : NetworkService) (dstIp : Ipv4Addr) (ourMac : MacAddress)
    (ipPayload : List UInt8) : Option (List UInt8) × NetworkService :=
  let (resolved, arp) := s.arp.resolve dstIp (some ⟨ipPayload, dstIp⟩)
  (resolved.map fun dstMac =>
    (EthernetHeader.mk dstMac ourMac EtherType.ipv4).serialize ++ ipPayload, { s with arp })

/-- A packet is wrapped and handed out, or waits for an address. -/
def pushPacket (interface : Nat) (ourMac : MacAddress) (state : NetworkService × List ServiceOutput)
    (dstIp : Ipv4Addr) (packet : List UInt8) : NetworkService × List ServiceOutput :=
  match state.1.wrapInEthernet dstIp ourMac packet with
  | (some frame, s) => pushFrame interface (s, state.2) frame
  | (none, s) => (s, state.2)

/-- `resolve_pending_connect` (`service.rs:929-941`). -/
def resolvePendingConnect (state : NetworkService × List ServiceOutput) (key : TcpConnectionKey)
    (response : SocketResponse) : NetworkService × List ServiceOutput :=
  match state.1.pendingConnect with
  | some (_, pendingKey) =>
      if pendingKey = key then
        ({ state.1 with pendingConnect := none }, state.2 ++ [.socketResponse response])
      else state
  | none => state

/-- One turn of the loop of `emit_tcp_outputs` (`service.rs:870-918`). -/
def emitTcpOutput (interface : Nat) (ourMac : MacAddress)
    (state : NetworkService × List ServiceOutput) : TcpOutput → NetworkService × List ServiceOutput
  | .sendSegment data dstIp => pushPacket interface ourMac state dstIp data.packet
  | .connectionEstablished key => resolvePendingConnect state key (.ok 0)
  | .connectionRefused key => resolvePendingConnect state key (.error .connectionRefused)
  | .connectionClosed key => resolvePendingConnect state key (.error .timedOut)
  | .dataReceived _ => state

/-- `emit_tcp_outputs` (`service.rs:863-922`). -/
def emitTcpOutputs (interface : Nat) (ourMac : MacAddress)
    (state : NetworkService × List ServiceOutput) (outs : List TcpOutput) :
    NetworkService × List ServiceOutput :=
  outs.foldl (emitTcpOutput interface ourMac) state

/-! ## Frames -/

/-- The packets that waited for an address (`service.rs:767-780` and `service.rs:784-797`). -/
def drainPending (interface : Nat) (ourMac : MacAddress)
    (state : NetworkService × List ServiceOutput)
    (ip : Ipv4Addr) : NetworkService × List ServiceOutput :=
  let (pending, arp) := state.1.arp.drainPending ip
  pending.foldl
    (fun state packet => pushPacket interface ourMac state packet.nextHopIp packet.data)
    ({ state.1 with arp }, state.2)

/-- `handle_arp_packet` (`service.rs:737-800`). -/
def handleArpPacket (s : NetworkService) (interface : Nat) (packet : ArpPacket)
    (ourMac : MacAddress) (ourIp : Ipv4Addr) : NetworkService × List ServiceOutput :=
  match s.arp.handleArpPacket packet ourMac ourIp with
  | (.sendReply reply, arp) =>
      let frame := (EthernetHeader.mk packet.senderMac ourMac EtherType.arp).serialize ++
        reply.serialize
      drainPending interface ourMac (pushFrame interface ({ s with arp }, []) frame)
        packet.senderIp
  | (.updatedTable, arp) => drainPending interface ourMac ({ s with arp }, []) packet.senderIp
  | (.ignored, arp) => ({ s with arp }, [])

/-- A packet for the transport layers (`service.rs:344-403`). -/
def handleIpPacket (s : NetworkService) (interface : Nat) (header : Ipv4Header)
    (payload : List UInt8) (now : Nat) : NetworkService × List ServiceOutput :=
  if header.protocol = IpProtocol.icmp then
    match IcmpHeader.parse payload with
    | none => (s, [])
    | some (icmpHeader, icmpPayload) =>
        match s.icmp.handleIcmp icmpHeader icmpPayload header.src now with
        | (.reply data _, icmp) =>
            pushPacket interface (s.macOf interface) ({ s with icmp }, []) header.src
              (Ipv4Header.buildPacket (s.ipOf interface) header.src IpProtocol.icmp 64 0 data)
        | (_, icmp) => ({ s with icmp }, [])
  else if header.protocol = IpProtocol.udp then
    match UdpHeader.parse payload with
    | none => (s, [])
    | some (udpHeader, udpPayload) =>
        ({ s with udp := s.udp.handlePacket udpHeader udpPayload header.src }, [])
  else if header.protocol = IpProtocol.tcp then
    match TcpHeader.parse payload with
    | none => (s, [])
    | some (tcpHeader, tcpPayload) =>
        let (tcp, outs) := s.tcp.handleSegment tcpHeader tcpPayload header.src header.dst now
        emitTcpOutputs interface (s.macOf interface) ({ s with tcp }, []) outs
  else (s, [])

/-- `handle_frame` (`service.rs:316-408`). -/
def handleFrame (s : NetworkService) (interface : Nat) (frame : List UInt8) (now : Nat) :
    NetworkService × List ServiceOutput :=
  let s := s.recordRx interface frame.length
  match EthernetHeader.parse frame with
  | none => (s, [])
  | some (ethernet, payload) =>
      if ethernet.etherType = EtherType.arp then
        match ArpPacket.parse payload with
        | none => (s, [])
        | some packet => s.handleArpPacket interface packet (s.macOf interface) (s.ipOf interface)
      else if ethernet.etherType = EtherType.ipv4 then
        match parseIpv4Packet payload with
        | none => (s, [])
        | some (header, payload) => s.handleIpPacket interface header payload now
      else (s, [])

/-! ## Requests -/

/-- `alloc_ephemeral_port` (`service.rs:681-689`). -/
def allocEphemeralPort (s : NetworkService) : UInt16 × NetworkService :=
  (s.nextEphemeralPort, { s with nextEphemeralPort :=
    if s.nextEphemeralPort ≥ ephemeralPortEnd then ephemeralPortStart
    else s.nextEphemeralPort + 1 })

/-- `u16::try_from(handle).unwrap_or(0)`. -/
def portOfHandle (handle : Nat) : UInt16 := if handle < 2 ^ 16 then UInt16.ofNat handle else 0

/-- The port of a passive socket (`service.rs:444-447`). -/
def listenPort (s : NetworkService) (handle : Nat) : UInt16 :=
  (s.socketState[handle]?).elim (portOfHandle handle) (·.1.port)

/-- The loop over the output of `connect` (`service.rs:503-538`): without an address the request
for it goes out. -/
def emitSyn (localIp : Ipv4Addr) (ourMac : MacAddress) (s : NetworkService) :
    TcpOutput → NetworkService
  | .sendSegment data dstIp =>
      match s.wrapInEthernet dstIp ourMac data.packet with
      | (some frame, s) =>
          let s := s.recordTx 0 frame.length
          { s with pendingTx := s.pendingTx ++ [.sendFrame 0 frame] }
      | (none, s) =>
          let frame := buildArpRequestFrame dstIp ourMac localIp
          let s := s.recordTx 0 frame.length
          { s with pendingTx := s.pendingTx ++ [.sendFrame 0 frame] }
  | _ => s

/-- `Connect` (`service.rs:467-547`). -/
def connect (s : NetworkService) (handle : Nat) (addr : SocketApiAddr) :
    SocketResponse × NetworkService :=
  match s.pendingConnect with
  | some _ => (.error .wouldBlock, s)
  | none =>
      let (port, s) := s.allocEphemeralPort
      match s.tcp.connect ⟨s.ipOf 0, port⟩ addr with
      | (.ok key, tcp, outs) =>
          let s := { s with
            tcp
            socketState := s.socketState.insert handle key
            pendingConnect := some (handle, key) }
          (.pending, outs.foldl (emitSyn (s.ipOf 0) (s.macOf 0)) s)
      | (.error error, tcp, _) => (.error error, { s with tcp })

/-- The output of a TCP call is queued for the event loop (`service.rs:567-569`). -/
def queueTcpOutputs (s : NetworkService) (outs : List TcpOutput) : NetworkService :=
  let (s, frames) := emitTcpOutputs 0 (s.macOf 0) (s, []) outs
  { s with pendingTx := s.pendingTx ++ frames }

/-- `handle_socket_request` (`service.rs:425-673`). -/
def handleSocketRequest (s : NetworkService) : SocketRequest → SocketResponse × NetworkService
  | .socket => (.handle s.nextHandle, { s with nextHandle := s.nextHandle + 1 })
  | .bind _ addr =>
      match s.udp.bind addr.port with
      | (.ok port, udp) => (.ok port.toNat, { s with udp })
      | (.error error, udp) => (.error error, { s with udp })
  | .listen handle backlog =>
      match s.tcp.listen (s.listenPort handle) backlog with
      | (.ok (), tcp) => (.ok 0, { s with tcp })
      | (.error error, tcp) => (.error error, { s with tcp })
  | .accept handle =>
      match s.tcp.accept (s.listenPort handle) with
      | (some _, tcp) =>
          (.handle s.nextHandle, { s with tcp, nextHandle := s.nextHandle + 1 })
      | (none, tcp) => (.error .wouldBlock, { s with tcp })
  | .connect handle addr => s.connect handle addr
  | .send handle data =>
      match s.socketState[handle]? with
      | none => (.error .notConnected, s)
      | some key =>
          match s.tcp.send key data with
          | (.ok n, tcp, outs) => (.ok n, { s with tcp }.queueTcpOutputs outs)
          | (.error error, tcp, _) => (.error error, { s with tcp })
  | .recv handle maxLen =>
      match s.socketState[handle]? with
      | none => (.error .notConnected, s)
      | some key =>
          match s.tcp.recv key maxLen with
          | (.ok data, tcp) => (.data data, { s with tcp })
          | (.error error, tcp) => (.error error, { s with tcp })
  | .sendTo handle data addr =>
      match s.udp.sendto (portOfHandle handle) addr (s.ipOf 0) addr.ip data with
      | .ok packet => (.ok packet.length, s)
      | .error error => (.error error, s)
  | .recvFrom handle =>
      match s.udp.recvfrom (portOfHandle handle) with
      | (some (addr, data), udp) => (.dataFrom data addr, { s with udp })
      | (none, udp) => (.error .wouldBlock, { s with udp })
  | .close handle =>
      let s := { s with socketOptions := s.socketOptions.erase handle }
      match s.socketState[handle]? with
      | some key =>
          let (_, tcp, outs) := s.tcp.close key
          (.ok 0, { s with socketState := s.socketState.erase handle, tcp }.queueTcpOutputs
            outs)
      | none => (.ok 0, { s with udp := s.udp.close (portOfHandle handle) })
  | .resolve hostname =>
      match s.dns.resolveCached hostname 0 with
      | some addrs => (.addresses (addrs.map fun ip => ⟨ip, 0⟩), s)
      | none => (.error .hostUnreachable, s)
  | .listSockets => (.socketList, s)
  | .setSockOpt handle option =>
      let options := (s.socketOptions[handle]?).getD {}
      (.ok 0, { s with socketOptions := s.socketOptions.insert handle (options.apply option) })
  | .getSockName _ | .getPeerName _ | .shutdown _ => (.ok 0, s)

/-! ## The timer -/

/-- The requests for addresses that are repeated (`service.rs:707-717`). -/
def retransmitArp (s : NetworkService) (nowSecs : Nat) : NetworkService × List ServiceOutput :=
  match s.interfaces.head? with
  | none => (s, [])
  | some config =>
      let (due, arp) := s.arp.dueRetransmits nowSecs
      due.foldl (fun state ip => pushFrame 0 state (buildArpRequestFrame ip config.mac config.ip))
        ({ s with arp }, [])

/-- `tick` (`service.rs:694-730`). -/
def tick (s : NetworkService) (now : Nat) : NetworkService × List ServiceOutput :=
  let s := { s with arp := s.arp.expireStale (now / 1000) arpTimeoutSecs }
  let (s, out) := s.retransmitArp (now / 1000)
  let (tcp, outs) := s.tcp.tick now
  emitTcpOutputs 0 (s.macOf 0) ({ s with tcp }, out) outs

/-! ## Runs -/

inductive Call where
  | addInterface (config : InterfaceConfig)
  | request (request : SocketRequest)
  | frame (interface : Nat) (frame : List UInt8) (now : Nat)
  | tick (now : Nat)
  | takePendingTx

/-- The service after a call and what the call hands to the event loop. -/
def step (s : NetworkService) : Call → NetworkService × List ServiceOutput
  | .addInterface config => (s.addInterface config, [])
  | .request request => ((s.handleSocketRequest request).2, [])
  | .frame interface frame now => s.handleFrame interface frame now
  | .tick now => s.tick now
  | .takePendingTx => (s.takePendingTx.2, s.takePendingTx.1)

end NetworkService

end NexaCore.Net
