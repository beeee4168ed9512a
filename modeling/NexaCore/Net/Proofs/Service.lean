import NexaCore.Net.Service

/-!
# What the service changes

Sending touches the ARP table and the counters; the events of the TCP table touch the deferred
reply besides. The results about the service are about its tables and its deferred reply, so
that these two facts are all they use of the sending side.
-/

namespace NexaCore.Net

open List

namespace NetworkService

variable {interface : Nat} {ourMac : MacAddress} {dstIp : Ipv4Addr}
  {state state' state'' : NetworkService × List ServiceOutput} {outs : List TcpOutput}

/-- The responses among what is handed to the event loop. -/
def responses (outs : List ServiceOutput) : List SocketResponse :=
  outs.filterMap fun
    | .socketResponse response => some response
    | .sendFrame _ _ => none

theorem responses_append (outs outs' : List ServiceOutput) :
    responses (outs ++ outs') = responses outs ++ responses outs' :=
  filterMap_append

/-! ## Sending -/

/-- Only frames are added, and only the ARP table and the counters change. -/
def Sends (before after : NetworkService × List ServiceOutput) : Prop :=
  (∃ arp counters, after.1 = { before.1 with arp, counters }) ∧
    responses after.2 = responses before.2

theorem Sends.refl : Sends state state := ⟨⟨_, _, rfl⟩, rfl⟩

theorem Sends.trans (first : Sends state state') (second : Sends state' state'') :
    Sends state state'' := by
  obtain ⟨⟨arp, counters, eq⟩, out⟩ := first
  obtain ⟨⟨arp', counters', eq'⟩, out'⟩ := second
  refine ⟨⟨arp', counters', ?_⟩, out'.trans out⟩
  rw [eq', eq]

theorem Sends.foldl {α : Type} {next : NetworkService × List ServiceOutput → α →
    NetworkService × List ServiceOutput} (each : ∀ state a, Sends state (next state a))
    (as : List α) : Sends state (as.foldl next state) := by
  induction as generalizing state with
  | nil => exact .refl
  | cons a as ih => exact (each state a).trans ih

theorem sends_pushFrame (frame : List UInt8) : Sends state (pushFrame interface state frame) := by
  refine ⟨⟨_, _, rfl⟩, ?_⟩
  rw [pushFrame, responses_append]
  exact append_nil _

theorem sends_pushPacket (packet : List UInt8) :
    Sends state (pushPacket interface ourMac state dstIp packet) := by
  have wrapped : Sends state ((state.1.wrapInEthernet dstIp ourMac packet).2, state.2) :=
    ⟨⟨_, _, rfl⟩, rfl⟩
  unfold pushPacket
  split <;> rename_i frame
  · rw [frame] at wrapped
    exact wrapped.trans (sends_pushFrame _)
  · rw [frame] at wrapped
    exact wrapped

theorem sends_drainPending (ip : Ipv4Addr) :
    Sends state (drainPending interface ourMac state ip) := by
  have drained : Sends state ({ state.1 with arp := (state.1.arp.drainPending ip).2 }, state.2) :=
    ⟨⟨_, _, rfl⟩, rfl⟩
  exact drained.trans (Sends.foldl (fun _ _ => sends_pushPacket _) _)

theorem sends_handleArpPacket (s : NetworkService) (packet : ArpPacket) (ourIp : Ipv4Addr) :
    Sends (s, []) (s.handleArpPacket interface packet ourMac ourIp) := by
  have handled : Sends (s, [])
      ({ s with arp := (s.arp.handleArpPacket packet ourMac ourIp).2 }, []) := ⟨⟨_, _, rfl⟩, rfl⟩
  unfold handleArpPacket
  split <;> rename_i result
  · rw [result] at handled
    exact (handled.trans (sends_pushFrame _)).trans (sends_drainPending _)
  · rw [result] at handled
    exact handled.trans (sends_drainPending _)
  · rw [result] at handled
    exact handled

theorem sends_retransmitArp (s : NetworkService) (nowSecs : Nat) :
    Sends (s, []) (s.retransmitArp nowSecs) := by
  unfold retransmitArp
  split
  · exact .refl
  · have due : Sends (s, []) ({ s with arp := (s.arp.dueRetransmits nowSecs).2 }, []) :=
      ⟨⟨_, _, rfl⟩, rfl⟩
    exact due.trans (Sends.foldl (fun _ _ => sends_pushFrame _) _)

/-! ## Events of the TCP table -/

/-- The reply that an event gives to the `Connect` of a connection. -/
def replyFor (key : TcpConnectionKey) : TcpOutput → Option SocketResponse
  | .connectionEstablished k => if k = key then some (.ok 0) else none
  | .connectionRefused k => if k = key then some (.error .connectionRefused) else none
  | .connectionClosed k => if k = key then some (.error .timedOut) else none
  | .sendSegment _ _ | .dataReceived _ => none

/-- The deferred reply after some events, and what is replied: the first event of the connection
that has a reply settles it. -/
def settle (outs : List TcpOutput) :
    Option (Nat × TcpConnectionKey) → Option (Nat × TcpConnectionKey) × List SocketResponse
  | none => (none, [])
  | some (handle, key) =>
      match outs.findSome? (replyFor key) with
      | some response => (none, [response])
      | none => (some (handle, key), [])

/-- The events settle the deferred reply; beyond that only the ARP table and the counters change. -/
def Settles (outs : List TcpOutput) (before after : NetworkService × List ServiceOutput) : Prop :=
  (∃ arp counters, after.1 = { before.1 with
      arp
      counters
      pendingConnect := (settle outs before.1.pendingConnect).1 }) ∧
    responses after.2 = responses before.2 ++ (settle outs before.1.pendingConnect).2

theorem settle_append (outs outs' : List TcpOutput) (pending : Option (Nat × TcpConnectionKey)) :
    settle (outs ++ outs') pending = ((settle outs' (settle outs pending).1).1,
        (settle outs pending).2 ++ (settle outs' (settle outs pending).1).2) := by
  cases pending with
  | none => rfl
  | some waiting =>
    simp only [settle, findSome?_append]
    cases first : outs.findSome? (replyFor waiting.2) with
    | some response => rfl
    | none =>
      simp only [Option.none_or, nil_append]

theorem Settles.trans {outs' : List TcpOutput} (first : Settles outs state state')
    (second : Settles outs' state' state'') : Settles (outs ++ outs') state state'' := by
  obtain ⟨⟨arp, counters, eq⟩, out⟩ := first
  obtain ⟨⟨arp', counters', eq'⟩, out'⟩ := second
  have pending : state'.1.pendingConnect = (settle outs state.1.pendingConnect).1 := by rw [eq]
  rw [pending] at eq' out'
  refine ⟨⟨arp', counters', ?_⟩, ?_⟩
  · rw [eq', settle_append, eq]
  · rw [out', out, settle_append, append_assoc]

theorem settle_of_silent
    (silent : ∀ key, outs.findSome? (replyFor key) = none)
    (pending : Option (Nat × TcpConnectionKey)) : settle outs pending = (pending, []) := by
  cases pending with
  | none => rfl
  | some waiting => simp only [settle, silent]

theorem Sends.settles (sends : Sends state state')
    (silent : ∀ key, outs.findSome? (replyFor key) = none) : Settles outs state state' := by
  have kept := settle_of_silent silent state.1.pendingConnect
  obtain ⟨⟨arp, counters, eq⟩, out⟩ := sends
  refine ⟨⟨arp, counters, ?_⟩, ?_⟩
  · rw [kept, eq]
  · rw [kept, out, append_nil]

theorem settles_resolvePendingConnect {output : TcpOutput} {key : TcpConnectionKey}
    {response : SocketResponse}
    (reply : ∀ k, replyFor k output = if key = k then some response else none) :
    Settles [output] state (resolvePendingConnect state key response) := by
  unfold resolvePendingConnect Settles
  cases pending : state.1.pendingConnect with
  | none =>
    refine ⟨⟨state.1.arp, state.1.counters, ?_⟩, ?_⟩
    · simp only [settle]
      rw [← pending]
    · simp only [settle, append_nil]
  | some waiting =>
    obtain ⟨handle, waitingKey⟩ := waiting
    by_cases own : waitingKey = key
    · subst own
      simp only [settle, findSome?_cons, reply, if_true]
      refine ⟨⟨_, _, rfl⟩, ?_⟩
      rw [responses_append]
      rfl
    · have apart : ¬key = waitingKey := fun equal => own equal.symm
      simp only [settle, findSome?_cons, findSome?_nil, reply, apart, own, if_false]
      refine ⟨⟨state.1.arp, state.1.counters, ?_⟩, ?_⟩
      · rw [← pending]
      · rw [append_nil]

theorem settles_emitTcpOutput (output : TcpOutput) :
    Settles [output] state (emitTcpOutput interface ourMac state output) := by
  cases output with
  | sendSegment data dstIp => exact (sends_pushPacket _).settles fun _ => rfl
  | connectionEstablished key => exact settles_resolvePendingConnect fun _ => rfl
  | dataReceived key => exact Sends.refl.settles fun _ => rfl
  | connectionClosed | connectionRefused => exact settles_resolvePendingConnect fun _ => rfl

theorem settles_emitTcpOutputs (outs : List TcpOutput) :
    Settles outs state (emitTcpOutputs interface ourMac state outs) := by
  induction outs generalizing state with
  | nil => exact Sends.refl.settles fun _ => rfl
  | cons output outs ih => exact (settles_emitTcpOutput output).trans ih

theorem tcp_emitTcpOutputs (outs : List TcpOutput) :
    (emitTcpOutputs interface ourMac state outs).1.tcp = state.1.tcp := by
  have settles : Settles outs state (emitTcpOutputs interface ourMac state outs) :=
    settles_emitTcpOutputs outs
  obtain ⟨⟨arp, counters, eq⟩, -⟩ := settles
  rw [eq]

/-! ## Dispatch -/

variable {s : NetworkService} {header : Ipv4Header} {payload : List UInt8} {now : Nat}

theorem handleIpPacket_udp {udpHeader : UdpHeader} {data : List UInt8}
    (udp : header.protocol = IpProtocol.udp)
    (parsed : UdpHeader.parse payload = some (udpHeader, data)) :
    s.handleIpPacket interface header payload now =
      ({ s with udp := s.udp.handlePacket udpHeader data header.src }, []) := by
  unfold handleIpPacket
  rw [if_neg (by rw [udp]; decide), if_pos udp, parsed]

theorem handleIpPacket_tcp {tcpHeader : TcpHeader} {data : List UInt8}
    (tcp : header.protocol = IpProtocol.tcp)
    (parsed : TcpHeader.parse payload = some (tcpHeader, data)) :
    s.handleIpPacket interface header payload now = emitTcpOutputs interface (s.macOf interface)
        ({ s with tcp := (s.tcp.handleSegment tcpHeader data header.src header.dst now).1 }, [])
        (s.tcp.handleSegment tcpHeader data header.src header.dst now).2 := by
  unfold handleIpPacket
  rw [if_neg (by rw [tcp]; decide), if_neg (by rw [tcp]; decide), if_pos tcp, parsed]

theorem handleIpPacket_tcp_none (tcp : header.protocol = IpProtocol.tcp)
    (short : TcpHeader.parse payload = none) :
    s.handleIpPacket interface header payload now = (s, []) := by
  unfold handleIpPacket
  rw [if_neg (by rw [tcp]; decide), if_neg (by rw [tcp]; decide), if_pos tcp, short]

end NetworkService

end NexaCore.Net
