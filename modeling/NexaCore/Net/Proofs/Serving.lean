import NexaCore.Net.Proofs.Service

/-!
# The calls of the service on the TCP table

A call of the service makes at most one call on the TCP table. What that emits settles the
deferred reply; apart from this, no reply is handed to the event loop. Only a `Connect` that
returns `Pending` starts a wait.
-/

namespace NexaCore.Net

open Option TcpControlBlock EthernetHeader List

namespace NetworkService

variable {s : NetworkService} {call : Call}

/-! ## What a call is for the TCP table -/

/-- The segment that a frame brings to the TCP table. -/
def segmentCall (frame : List UInt8) (now : Nat) : Option TcpSocketTable.Call :=
  (parse frame).bind fun parsed =>
    if parsed.1.etherType = EtherType.ipv4 then
      (parseIpv4Packet parsed.2).bind fun packet =>
        if packet.1.protocol = IpProtocol.tcp then
          (TcpHeader.parse packet.2).map fun segment =>
            .handleSegment segment.1 segment.2 packet.1.src packet.1.dst now
        else none
    else none

/-- The call that a call of the service makes on the TCP table. -/
def tcpCall (s : NetworkService) : Call → Option TcpSocketTable.Call
  | .request (.listen handle backlog) => some (.listen (s.listenPort handle) backlog)
  | .request (.accept handle) => some (.accept (s.listenPort handle))
  | .request (.connect _ addr) =>
      if s.pendingConnect.isSome then none
      else some (.connect ⟨s.ipOf 0, s.nextEphemeralPort⟩ addr)
  | .request (.send handle data) => (s.socketState[handle]?).map fun key => .send key data
  | .request (.recv handle maxLen) => (s.socketState[handle]?).map fun key => .recv key maxLen
  | .request (.close handle) => (s.socketState[handle]?).map fun key => .close key
  | .frame _ frame now => segmentCall frame now
  | .tick now => some (.tick now)
  | _ => none

def tcpStep (s : NetworkService) (call : Call) : TcpSocketTable × List TcpOutput :=
  (s.tcpCall call).elim (s.tcp, []) s.tcp.step

/-- A call of the service is its call of the TCP table, whose events settle the deferred reply. -/
structure Serves (s : NetworkService) (call : Call) : Prop where
  tcp : (s.step call).1.tcp = (s.tcpStep call).1
  pending : (s.step call).1.pendingConnect = (settle (s.tcpStep call).2 s.pendingConnect).1
  replies : responses (s.step call).2 = (settle (s.tcpStep call).2 s.pendingConnect).2
  queued : responses (s.step call).1.pendingTx = []

theorem serves_idle (idle : s.tcpCall call = none) (tcp : (s.step call).1.tcp = s.tcp)
    (pending : (s.step call).1.pendingConnect = s.pendingConnect)
    (replies : responses (s.step call).2 = [])
    (queued : responses (s.step call).1.pendingTx = []) : s.Serves call := by
  have stepped : s.tcpStep call = (s.tcp, []) := by
    rw [tcpStep, idle]
    rfl
  have silent : settle [] s.pendingConnect = (s.pendingConnect, []) :=
    settle_of_silent (fun _ => rfl) _
  refine ⟨?_, ?_, ?_, queued⟩
  · rw [tcp, stepped]
  · rw [pending, stepped, silent]
  · rw [replies, stepped, silent]

theorem serves_sends (quiet : responses s.pendingTx = []) (idle : s.tcpCall call = none)
    (before : NetworkService) (tcp : before.tcp = s.tcp)
    (pending : before.pendingConnect = s.pendingConnect) (queued : before.pendingTx = s.pendingTx)
    (sends : Sends (before, []) (s.step call)) : s.Serves call := by
  obtain ⟨⟨arp, counters, eq⟩, out⟩ := sends
  apply serves_idle idle
  · rw [eq]
    exact tcp
  · rw [eq]
    exact pending
  · exact out
  · rw [eq]
    change responses before.pendingTx = []
    rw [queued, quiet]

/-- A call that hands the events of the TCP table to the event loop. -/
theorem serves_settles (quiet : responses s.pendingTx = []) (before : NetworkService)
    (out : List ServiceOutput) (silent : responses out = [])
    (tcp : before.tcp = (s.tcpStep call).1) (pending : before.pendingConnect = s.pendingConnect)
    (queued : before.pendingTx = s.pendingTx)
    (settles : Settles (s.tcpStep call).2 (before, out) (s.step call)) : s.Serves call := by
  obtain ⟨⟨arp, counters, eq⟩, replies⟩ := settles
  refine ⟨?_, ?_, ?_, ?_⟩
  · rw [eq]
    exact tcp
  · rw [eq, ← pending]
  · rw [replies, silent, ← pending]
    rfl
  · rw [eq]
    change responses before.pendingTx = []
    rw [queued, quiet]

variable {now : Nat}

theorem serves_packet (quiet : responses s.pendingTx = []) {interface : Nat} {frame : List UInt8}
    (header : Ipv4Header) (payload : List UInt8) (parsed : segmentCall frame now =
      if header.protocol = IpProtocol.tcp then
        (TcpHeader.parse payload).map fun segment =>
          .handleSegment segment.1 segment.2 header.src header.dst now
      else none) (handled : s.step (.frame interface frame now) =
      (s.recordRx interface frame.length).handleIpPacket interface header payload now) :
    s.Serves (.frame interface frame now) := by
  by_cases tcp : header.protocol = IpProtocol.tcp
  · rw [if_pos tcp] at parsed
    cases segment : TcpHeader.parse payload with
    | none =>
      rw [segment] at parsed
      refine serves_sends quiet parsed (s.recordRx interface frame.length) rfl rfl rfl ?_
      rw [handled, handleIpPacket_tcp_none tcp segment]
      exact .refl
    | some pair =>
      obtain ⟨tcpHeader, data⟩ := pair
      have stepped : s.tcpStep (.frame interface frame now) =
          s.tcp.handleSegment tcpHeader data header.src header.dst now := by
        rw [tcpStep, tcpCall, parsed, segment]
        rfl
      rw [handleIpPacket_tcp tcp segment] at handled
      refine serves_settles quiet { s.recordRx interface frame.length with
        tcp := (s.tcp.handleSegment tcpHeader data header.src header.dst now).1 }
          [] rfl ?_ rfl rfl ?_
      · rw [stepped]
      · rw [stepped, handled]
        exact settles_emitTcpOutputs _
  · rw [if_neg tcp] at parsed
    have sends : ∀ icmp udp, Sends ({ s.recordRx interface frame.length with icmp, udp }, [])
        (s.step (.frame interface frame now)) → s.Serves (.frame interface frame now) :=
      fun icmp udp sent => serves_sends quiet parsed
        { s.recordRx interface frame.length with icmp, udp } rfl rfl rfl sent
    rw [handled] at sends
    unfold handleIpPacket at sends
    split at sends
    · split at sends
      · exact sends _ _ .refl
      · split at sends
        · exact sends _ _ (sends_pushPacket _)
        · exact sends _ _ .refl
    · split at sends
      · split at sends <;> exact sends _ _ .refl
      · exact sends _ _ .refl

theorem serves_frame (quiet : responses s.pendingTx = []) (interface : Nat) (frame : List UInt8)
    (now : Nat) : s.Serves (.frame interface frame now) := by
  have sends : segmentCall frame now = none →
      Sends (s.recordRx interface frame.length, []) (s.step (.frame interface frame now)) →
      s.Serves (.frame interface frame now) := by
    intro none sent
    exact serves_sends quiet none (s.recordRx interface frame.length) rfl rfl rfl sent
  unfold segmentCall step handleFrame at sends
  cases ethernet : parse frame with
  | none =>
    simp only [ethernet] at sends
    exact sends rfl .refl
  | some parsed =>
    obtain ⟨ethernetHeader, payload⟩ := parsed
    simp only [ethernet, bind_some] at sends
    by_cases arp : ethernetHeader.etherType = EtherType.arp
    · have other : ¬ethernetHeader.etherType = EtherType.ipv4 := by
        rw [arp]
        decide
      simp only [if_pos arp, if_neg other] at sends
      apply sends trivial
      cases ArpPacket.parse payload with
      | none => exact .refl
      | some packet => exact sends_handleArpPacket _ packet _
    · simp only [if_neg arp] at sends
      by_cases ipv4 : ethernetHeader.etherType = EtherType.ipv4
      · simp only [if_pos ipv4] at sends
        cases packet : parseIpv4Packet payload with
        | none =>
          simp only [packet] at sends
          exact sends rfl .refl
        | some parsed =>
          obtain ⟨header, data⟩ := parsed
          apply serves_packet quiet header data
          · simp only [segmentCall, ethernet, bind_some, if_pos ipv4, packet]
          · simp only [step, handleFrame, ethernet, if_neg arp, if_pos ipv4, packet]
      · simp only [if_neg ipv4] at sends
        exact sends trivial .refl

/-! ### Requests -/

variable {outs : List TcpOutput}

theorem settle_segments
    (segments : ∀ output ∈ outs, ∃ data dstIp, output = .sendSegment data dstIp)
    (pending : Option (Nat × TcpConnectionKey)) : settle outs pending = (pending, []) := by
  apply settle_of_silent
  intro key
  rw [findSome?_eq_none_iff]
  intro output mem
  obtain ⟨data, dstIp, rfl⟩ := segments output mem
  rfl

theorem segments_sendChunks (data : List (List UInt8)) (c : TcpControlBlock) :
    ∀ output ∈ (sendChunks now data c).2, ∃ data dstIp, output = .sendSegment data dstIp := by
  induction data generalizing c with
  | nil => simp [sendChunks]
  | cons chunk rest ih =>
    intro output mem
    rcases mem_cons.mp mem with rfl | later
    · exact ⟨_, _, rfl⟩
    · exact ih _ output later

theorem segments_send (t : TcpSocketTable) (key : TcpConnectionKey) (data : List UInt8) :
    ∀ output ∈ (t.send key data).2.2, ∃ data dstIp, output = .sendSegment data dstIp := by
  have block : ∀ c : TcpControlBlock, ∀ output ∈ (c.send t.lastNow data).2.2,
      ∃ data dstIp, output = .sendSegment data dstIp := by
    intro c
    unfold send
    split
    · exact segments_sendChunks _ _
    · simp
  unfold TcpSocketTable.send
  split
  · simp
  · exact block _

theorem segments_close (t : TcpSocketTable) (key : TcpConnectionKey) :
    ∀ output ∈ (t.close key).2.2, ∃ data dstIp, output = .sendSegment data dstIp := by
  unfold TcpSocketTable.close
  split
  · simp
  · unfold close closeTo emit
    split <;> simp

theorem queueTcpOutputs_spec (quiet : responses s.pendingTx = [])
    (segments : ∀ output ∈ outs, ∃ data dstIp, output = .sendSegment data dstIp) :
    (s.queueTcpOutputs outs).tcp = s.tcp ∧
      (s.queueTcpOutputs outs).pendingConnect = s.pendingConnect ∧
      responses (s.queueTcpOutputs outs).pendingTx = [] := by
  have settles : Settles outs (s, []) (emitTcpOutputs 0 (s.macOf 0) (s, []) outs) :=
    settles_emitTcpOutputs outs
  obtain ⟨⟨arp, counters, eq⟩, replies⟩ := settles
  rw [settle_segments segments] at eq replies
  unfold queueTcpOutputs
  refine ⟨?_, ?_, ?_⟩
  · change (emitTcpOutputs 0 (s.macOf 0) (s, []) outs).1.tcp = _
    rw [eq]
  · change (emitTcpOutputs 0 (s.macOf 0) (s, []) outs).1.pendingConnect = _
    rw [eq]
  · change responses ((emitTcpOutputs 0 (s.macOf 0) (s, []) outs).1.pendingTx ++
      (emitTcpOutputs 0 (s.macOf 0) (s, []) outs).2) = []
    rw [responses_append, eq, replies]
    change responses s.pendingTx ++ [] = []
    rw [quiet]
    rfl

variable {request : SocketRequest} {tcpCall : TcpSocketTable.Call}

theorem serves_request (called : s.tcpCall (.request request) = some tcpCall)
    (segments : ∀ output ∈ (s.tcp.step tcpCall).2, ∃ data dstIp, output = .sendSegment data dstIp)
    (tcp : (s.handleSocketRequest request).2.tcp = (s.tcp.step tcpCall).1)
    (pending : (s.handleSocketRequest request).2.pendingConnect = s.pendingConnect)
    (queued : responses (s.handleSocketRequest request).2.pendingTx = []) :
    s.Serves (.request request) := by
  have stepped : s.tcpStep (.request request) = s.tcp.step tcpCall := by
    rw [tcpStep, called]
    rfl
  refine ⟨?_, ?_, ?_, queued⟩
  · rw [stepped]
    exact tcp
  · rw [stepped, settle_segments segments]
    exact pending
  · rw [stepped, settle_segments segments]
    rfl

theorem serves_refused (quiet : responses s.pendingTx = [])
    (idle : s.tcpCall (.request request) = none)
    (refused : (s.handleSocketRequest request).2 = s) : s.Serves (.request request) := by
  apply serves_idle idle <;> simp only [step, refused, quiet]
  rfl

/-- The connection that a `Connect` would open. -/
def connectKey (s : NetworkService) (addr : SocketApiAddr) : TcpConnectionKey :=
  (⟨s.ipOf 0, s.nextEphemeralPort⟩, addr)

theorem connect_waiting (handle : Nat) (addr : SocketApiAddr) (waits : s.pendingConnect.isSome) :
    s.connect handle addr = (.error .wouldBlock, s) := by
  obtain ⟨waiting, pending⟩ := Option.isSome_iff_exists.mp waits
  rw [connect, pending]

theorem connect_free (handle : Nat) (addr : SocketApiAddr) {ported : NetworkService}
    (free : s.pendingConnect = none)
    (alloc : s.allocEphemeralPort = (s.nextEphemeralPort, ported))
    {result : Except NetError TcpConnectionKey} {tcp : TcpSocketTable}
    (called : s.tcp.connect (s.connectKey addr).1 addr = (result, tcp, outs)) :
    s.connect handle addr = result.casesOn (fun error => (.error error, { ported with tcp }))
      (fun key => (.pending, outs.foldl (emitSyn (s.ipOf 0) (s.macOf 0)) { ported with
        tcp
        socketState := s.socketState.insert handle key
        pendingConnect := some (handle, key) })) := by
  have port : ported = s.allocEphemeralPort.2 := by rw [alloc]
  have again : ported.tcp.connect ⟨ported.ipOf 0, s.nextEphemeralPort⟩ addr =
      (result, tcp, outs) := by
    rw [port]
    exact called
  rw [connect, free]
  dsimp only
  rw [alloc]
  dsimp only
  rw [again]
  cases result with
  | error error => rfl
  | ok key =>
    rw [port]
    rfl

variable {addr : SocketApiAddr}

theorem connect_taken (handle : Nat) (free : s.pendingConnect = none)
    (taken : (s.tcp.connGet (s.connectKey addr)).isSome) :
    s.connect handle addr = (.error .addrInUse, s.allocEphemeralPort.2) :=
  connect_free handle addr free rfl (if_pos taken)

/-- A `Connect` that returns `Pending`. -/
structure Opens (s : NetworkService) (handle : Nat) (addr : SocketApiAddr)
    (after : NetworkService) : Prop where
  tcp : after.tcp =
    (s.tcp.step (.connect ⟨s.ipOf 0, s.nextEphemeralPort⟩ addr)).1
  pending : after.pendingConnect = some (handle, s.connectKey addr)
  queued : responses after.pendingTx = responses s.pendingTx

theorem emitSyn_spec (localIp : Ipv4Addr) (ourMac : MacAddress) (s : NetworkService)
    (output : TcpOutput) :
    (emitSyn localIp ourMac s output).tcp = s.tcp ∧
      (emitSyn localIp ourMac s output).pendingConnect = s.pendingConnect ∧
      responses (emitSyn localIp ourMac s output).pendingTx = responses s.pendingTx := by
  cases output with
  | sendSegment data dstIp =>
    obtain ⟨resolved, arp, wrapped⟩ : ∃ resolved arp,
        s.wrapInEthernet dstIp ourMac data.packet = (resolved, { s with arp }) := ⟨_, _, rfl⟩
    rw [emitSyn, wrapped]
    cases resolved <;> exact ⟨rfl, rfl, (responses_append _ _).trans (append_nil _)⟩
  | _ => exact ⟨rfl, rfl, rfl⟩

theorem foldl_emitSyn_spec (localIp : Ipv4Addr) (ourMac : MacAddress) (outs : List TcpOutput)
    (s : NetworkService) :
    (outs.foldl (emitSyn localIp ourMac) s).tcp = s.tcp ∧
      (outs.foldl (emitSyn localIp ourMac) s).pendingConnect = s.pendingConnect ∧
      responses (outs.foldl (emitSyn localIp ourMac) s).pendingTx = responses s.pendingTx := by
  induction outs generalizing s with
  | nil => exact ⟨rfl, rfl, rfl⟩
  | cons output outs ih =>
    obtain ⟨tcp, pending, queued⟩ := emitSyn_spec localIp ourMac s output
    obtain ⟨tcp', pending', queued'⟩ := ih (emitSyn localIp ourMac s output)
    exact ⟨tcp'.trans tcp, pending'.trans pending, queued'.trans queued⟩

theorem connect_opens (handle : Nat) (free : s.pendingConnect = none)
    (absent : ¬(s.tcp.connGet (s.connectKey addr)).isSome) :
    (s.connect handle addr).1 = .pending ∧ s.Opens handle addr (s.connect handle addr).2 := by
  have called : s.tcp.connect (s.connectKey addr).1 addr = _ := if_neg absent
  rw [connect_free handle addr free rfl called]
  obtain ⟨tcp, pending, queued⟩ := foldl_emitSyn_spec (s.ipOf 0) (s.macOf 0)
    (s.tcp.connect (s.connectKey addr).1 addr).2.2
    { s.allocEphemeralPort.2 with
      tcp := (s.tcp.connect (s.connectKey addr).1 addr).2.1
      socketState := s.socketState.insert handle (s.connectKey addr)
      pendingConnect := some (handle, s.connectKey addr) }
  rw [called] at tcp pending queued
  refine ⟨rfl, ?_, pending, queued⟩
  rw [TcpSocketTable.step]
  change _ = (s.tcp.connect (s.connectKey addr).1 addr).2.1
  rw [called]
  exact tcp

section

variable (quiet : responses s.pendingTx = [])

include quiet

/-- A `Connect` that is refused: one is waited for already, or the endpoints are in use. -/
theorem serves_connect (handle : Nat) (addr : SocketApiAddr)
    (failed : (s.connect handle addr).1 ≠ .pending) :
    s.Serves (.request (.connect handle addr)) := by
  by_cases waits : s.pendingConnect.isSome
  · have refused := s.connect_waiting handle addr waits
    apply serves_refused quiet
    · rw [tcpCall, if_pos waits]
    · rw [handleSocketRequest, refused]
  · have free : s.pendingConnect = none := by simpa using waits
    by_cases taken : (s.tcp.connGet (s.connectKey addr)).isSome
    · have refused := connect_taken handle free taken
      have same : s.tcp.step (.connect ⟨s.ipOf 0, s.nextEphemeralPort⟩ addr) = (s.tcp, []) := by
        rw [TcpSocketTable.step, TcpSocketTable.connect]
        exact congrArg Prod.snd (if_pos taken)
      apply serves_request (by rw [tcpCall, if_neg waits])
      · rw [same]
        simp
      · rw [same, handleSocketRequest, refused]
        rfl
      · rw [handleSocketRequest, refused]
        rfl
      · rw [handleSocketRequest, refused]
        exact quiet
    · exact absurd (connect_opens handle free taken).1 failed

theorem serves_table (called : s.tcpCall (.request request) = some tcpCall)
    (silent : (s.tcp.step tcpCall).2 = [])
    (handled : ∃ nextHandle, (s.handleSocketRequest request).2 =
      { s with tcp := (s.tcp.step tcpCall).1, nextHandle }) :
    s.Serves (.request request) := by
  obtain ⟨nextHandle, eq⟩ := handled
  apply serves_request called
  · simp [silent]
  · rw [eq]
  · rw [eq]
  · rw [eq]
    exact quiet

theorem serves_send (handle : Nat) (data : List UInt8) :
    s.Serves (.request (.send handle data)) := by
  cases found : s.socketState[handle]? with
  | none =>
    apply serves_refused quiet <;> simp only [tcpCall, handleSocketRequest, found, map_none]
  | some key =>
    have called : s.tcpCall (.request (.send handle data)) = some (.send key data) := by
      simp only [tcpCall, found, map_some]
    have segments := segments_send s.tcp key data
    cases sent : s.tcp.send key data with
    | mk result rest =>
      obtain ⟨tcp, outs⟩ := rest
      rw [sent] at segments
      have stepped : s.tcp.step (.send key data) = (tcp, outs) := congrArg Prod.snd sent
      obtain ⟨sameTcp, samePending, queued⟩ :=
        queueTcpOutputs_spec (s := { s with tcp }) quiet segments
      cases result with
      | error error =>
        apply serves_request called
        · rw [stepped]
          exact segments
        all_goals simp only [handleSocketRequest, found, sent, stepped, quiet]
      | ok n =>
        apply serves_request called
        · rw [stepped]
          exact segments
        all_goals simp only [handleSocketRequest, found, sent, stepped]
        · exact sameTcp
        · exact samePending
        · exact queued

theorem serves_close (handle : Nat) : s.Serves (.request (.close handle)) := by
  cases found : s.socketState[handle]? with
  | none =>
    have idle : s.tcpCall (.request (.close handle)) = none := by
      simp only [tcpCall, found, map_none]
    apply serves_idle idle <;> simp only [step, handleSocketRequest, found, quiet]
    rfl
  | some key =>
    have called : s.tcpCall (.request (.close handle)) = some (.close key) := by
      simp only [tcpCall, found, map_some]
    have segments := segments_close s.tcp key
    obtain ⟨sameTcp, samePending, queued⟩ := queueTcpOutputs_spec (s := { s with
      socketOptions := s.socketOptions.erase handle
      socketState := s.socketState.erase handle
      tcp := (s.tcp.close key).2.1 }) quiet segments
    apply serves_request called segments
    all_goals simp only [handleSocketRequest, found]
    · exact sameTcp
    · exact samePending
    · exact queued

theorem serves_recv (handle maxLen : Nat) : s.Serves (.request (.recv handle maxLen)) := by
  cases found : s.socketState[handle]? with
  | none =>
    apply serves_refused quiet <;> simp only [tcpCall, handleSocketRequest, found, map_none]
  | some key =>
    have called : s.tcpCall (.request (.recv handle maxLen)) = some (.recv key maxLen) := by
      simp only [tcpCall, found, map_some]
    refine serves_table quiet called rfl ⟨s.nextHandle, ?_⟩
    simp only [handleSocketRequest, found, TcpSocketTable.step]
    split <;> rename_i received <;> rw [received]

end

theorem serves_tick (quiet : responses s.pendingTx = []) (now : Nat) : s.Serves (.tick now) := by
  have sends := sends_retransmitArp { s with arp := s.arp.expireStale (now / 1000) arpTimeoutSecs }
    (now / 1000)
  cases sent : retransmitArp { s with arp := s.arp.expireStale (now / 1000) arpTimeoutSecs }
    (now / 1000) with
  | mk after out =>
    rw [sent] at sends
    obtain ⟨⟨arp, counters, same⟩, silent⟩ := sends
    have ticked : s.tick now = emitTcpOutputs 0 (after.macOf 0)
        ({ after with tcp := (after.tcp.tick now).1 }, out) (after.tcp.tick now).2 := by
      rw [tick]
      dsimp only
      rw [sent]
    dsimp only at same
    subst same
    refine serves_settles quiet
      { s with arp, counters, tcp := (s.tcp.tick now).1 } out silent rfl rfl rfl ?_
    rw [step, ticked]
    exact settles_emitTcpOutputs _

theorem serves (quiet : responses s.pendingTx = []) (call : Call)
    (unopened : ∀ handle addr, call = .request (.connect handle addr) →
      (s.connect handle addr).1 ≠ .pending) : s.Serves call := by
  cases call with
  | addInterface config => exact serves_idle rfl rfl rfl rfl quiet
  | takePendingTx => exact serves_idle rfl rfl rfl quiet rfl
  | frame interface frame now => exact serves_frame quiet interface frame now
  | tick now => exact serves_tick quiet now
  | request request =>
    cases request with
    | connect handle addr => exact serves_connect quiet handle addr (unopened handle addr rfl)
    | listen handle backlog =>
      refine serves_table quiet rfl rfl ⟨s.nextHandle, ?_⟩
      simp only [handleSocketRequest, TcpSocketTable.step]
      split <;> rename_i listened <;> rw [listened]
    | accept handle =>
      apply serves_table quiet rfl rfl
      simp only [handleSocketRequest, TcpSocketTable.step]
      split <;> rename_i accepted <;> rw [accepted] <;> exact ⟨_, rfl⟩
    | send handle data => exact serves_send quiet handle data
    | recv handle maxLen => exact serves_recv quiet handle maxLen
    | close handle => exact serves_close quiet handle
    | bind | sendTo | recvFrom | resolve =>
      apply serves_idle rfl <;> simp only [step, handleSocketRequest] <;> (try split) <;>
        first | rfl | exact quiet
    | socket | getSockName | getPeerName | setSockOpt | shutdown | listSockets =>
      exact serves_idle rfl rfl rfl rfl quiet

end NetworkService

end NexaCore.Net
