import NexaCore.Net.Tcp.ControlBlock
import Std.Data.ExtTreeMap

/-!
# The TCP socket table

Embedding of `TcpSocketTable` (`nexacore-net/src/tcp.rs`): the connection map, the listeners with
their backlogs, the calls of the socket layer, the dispatch of an arriving segment and the timer.
`step` collects the calls.
-/

namespace NexaCore.Net

open Std TcpFlags TcpControlBlock

/-- `ListenQueue` (`tcp.rs:322-327`). -/
structure ListenQueue where
  backlog : List TcpControlBlock
  maxBacklog : Nat

/-- `encode_addr_key` (`tcp.rs:308-312`): the bytes of the address, of the port and two zeros as
a big-endian number. -/
def encodeAddrKey (addr : SocketApiAddr) : Nat :=
  (addr.ip.toList.foldl (fun value byte => value * 256 + byte.toNat) 0 * 2 ^ 16 + addr.port.toNat) *
    2 ^ 16

/-- `encode_conn_key` (`tcp.rs:316-318`). The pair of numbers is ordered lexicographically, so
it is one number here. -/
def encodeConnKey (key : TcpConnectionKey) : Nat :=
    encodeAddrKey key.1 * 2 ^ 64 + encodeAddrKey key.2

/-- `TcpSocketTable` (`tcp.rs:511-529`). -/
structure TcpSocketTable where
  connections : ExtTreeMap Nat TcpControlBlock
  listeners : ExtTreeMap UInt16 ListenQueue
  nextIsn : Seq
  lastNow : Nat

namespace TcpSocketTable

/-- `TcpSocketTable::new` (`tcp.rs:534-541`). -/
def new : TcpSocketTable where
  connections := ∅
  listeners := ∅
  nextIsn := 0x01000001
  lastNow := 0

/-- `conn_get` (`tcp.rs:548-550`). -/
def connGet (t : TcpSocketTable) (key : TcpConnectionKey) : Option TcpControlBlock :=
  t.connections[encodeConnKey key]?

/-- `conn_insert` (`tcp.rs:561-563`), and a change of a connection in place. -/
def connInsert (t : TcpSocketTable) (key : TcpConnectionKey) (c : TcpControlBlock) :
    TcpSocketTable :=
  { t with connections := t.connections.insert (encodeConnKey key) c }

/-- `conn_remove` (`tcp.rs:565-567`). -/
def connRemove (t : TcpSocketTable) (key : TcpConnectionKey) : TcpSocketTable :=
  { t with connections := t.connections.erase (encodeConnKey key) }

/-- The table after `next_isn` (`tcp.rs:962-968`). -/
def advanceIsn (t : TcpSocketTable) : TcpSocketTable := { t with nextIsn := t.nextIsn + 0x00015EED }

/-! ## Calls -/

/-- `connect` (`tcp.rs:587-641`). -/
def connect (t : TcpSocketTable) (localAddr remoteAddr : SocketApiAddr) :
    Except NetError TcpConnectionKey × TcpSocketTable × List TcpOutput :=
  let key := (localAddr, remoteAddr)
  if (t.connGet key).isSome then (.error .addrInUse, t, [])
  else
    let c := opened localAddr remoteAddr t.nextIsn t.lastNow
    (.ok key, t.advanceIsn.connInsert key c, [.sendSegment c.synSegment remoteAddr.ip])

/-- `listen` (`tcp.rs:649-661`). -/
def listen (t : TcpSocketTable) (port : UInt16) (backlog : Nat) :
    Except NetError Unit × TcpSocketTable :=
  if port ∈ t.listeners then (.error .addrInUse, t)
  else (.ok (), { t with listeners := t.listeners.insert port ⟨[], backlog⟩ })

/-- The backlog of a listener, changed. -/
def setBacklog (t : TcpSocketTable) (port : UInt16) (queue : ListenQueue)
    (backlog : List TcpControlBlock) : TcpSocketTable :=
  { t with listeners := t.listeners.insert port { queue with backlog } }

/-- `accept` (`tcp.rs:667-673`). -/
def accept (t : TcpSocketTable) (port : UInt16) : Option TcpConnectionKey × TcpSocketTable :=
  match t.listeners[port]? with
  | none => (none, t)
  | some queue =>
      match queue.backlog with
      | [] => (none, t)
      | c :: rest => (some c.key, (t.setBacklog port queue rest).connInsert c.key c)

/-- `send` (`tcp.rs:694-735`). -/
def send (t : TcpSocketTable) (key : TcpConnectionKey) (data : List UInt8) :
    Except NetError Nat × TcpSocketTable × List TcpOutput :=
  match t.connGet key with
  | none => (.error .notConnected, t, [])
  | some c =>
      let (result, c, out) := c.send t.lastNow data
      (result, t.connInsert key c, out)

/-- `recv` (`tcp.rs:742-751`). -/
def recv (t : TcpSocketTable) (key : TcpConnectionKey) (room : Nat) :
    Except NetError (List UInt8) × TcpSocketTable :=
  match t.connGet key with
  | none => (.error .notConnected, t)
  | some c => (.ok (c.recv room).1, t.connInsert key (c.recv room).2)

/-- `close` (`tcp.rs:758-810`). -/
def close (t : TcpSocketTable) (key : TcpConnectionKey) :
    Except NetError Unit × TcpSocketTable × List TcpOutput :=
  match t.connGet key with
  | none => (.error .notConnected, t, [])
  | some c => (.ok (), t.connInsert key c.close.1, c.close.2)

/-! ## Arriving segments -/

/-- What becomes of a connection, in the table. A connection whose listener is gone is lost
(`tcp.rs:1054-1059`). -/
def dispose (t : TcpSocketTable) (key : TcpConnectionKey) :
    TcpControlBlock.Disposition → TcpSocketTable
  | .keep c => t.connInsert key c
  | .remove => t.connRemove key
  | .enqueue c =>
      let t := t.connRemove key
      match t.listeners[c.localAddr.port]? with
      | none => t
      | some queue => t.setBacklog c.localAddr.port queue (queue.backlog ++ [c])

/-- A reset in answer to a segment (`tcp.rs:905-934`). -/
def refusal (header : TcpHeader) (srcIp dstIp : Ipv4Addr) : TcpOutput :=
  if TcpFlags.Has header.flags TcpFlags.ack then
    .sendSegment (buildTcpSegment dstIp srcIp header.dstPort header.srcPort header.ackNum 0
      rst 0 []) srcIp
  else
    .sendSegment (buildTcpSegment dstIp srcIp header.dstPort header.srcPort 0 (header.seqNum + 1)
      (rst ||| TcpFlags.ack) 0 []) srcIp

def segmentKey (header : TcpHeader) (srcIp dstIp : Ipv4Addr) : TcpConnectionKey :=
  (⟨dstIp, header.dstPort⟩, ⟨srcIp, header.srcPort⟩)

/-- A SYN for a listener (`tcp.rs:856-901`): with a full backlog it is refused. -/
def openPassive (t : TcpSocketTable) (queue : ListenQueue) (header : TcpHeader)
    (srcIp dstIp : Ipv4Addr) : TcpSocketTable × List TcpOutput :=
  if queue.backlog.length ≥ queue.maxBacklog then
    (t, [.sendSegment (buildTcpSegment dstIp srcIp header.dstPort header.srcPort 0
      (header.seqNum + 1) (rst ||| TcpFlags.ack) 0 []) srcIp])
  else
    let key := segmentKey header srcIp dstIp
    let c := newSynReceived key.1 key.2 header.seqNum t.nextIsn
    (t.advanceIsn.connInsert key c, [.sendSegment c.synAckSegment srcIp])

/-- `handle_segment` (`tcp.rs:816-938`). -/
def handleSegment (t : TcpSocketTable) (header : TcpHeader) (payload : List UInt8)
    (srcIp dstIp : Ipv4Addr) (now : Nat) : TcpSocketTable × List TcpOutput :=
  let t := { t with lastNow := now }
  let key := segmentKey header srcIp dstIp
  if TcpFlags.Has header.flags rst then
    if (t.connGet key).isSome then (t.connRemove key, [.connectionClosed key]) else (t, [])
  else
    match t.connGet key with
    | some c =>
        let (disposition, out) := c.processSegment header payload now
        (t.dispose key disposition, out)
    | none =>
        if TcpFlags.Has header.flags syn ∧ ¬TcpFlags.Has header.flags TcpFlags.ack then
          match t.listeners[header.dstPort]? with
          | some queue => t.openPassive queue header srcIp dstIp
          | none => (t, [refusal header srcIp dstIp])
        else (t, [refusal header srcIp dstIp])

/-! ## The timer -/

/-- The timer of one connection of the map (`tcp.rs:949-953`). -/
def tickKey (now : Nat) (state : TcpSocketTable × List TcpOutput) (encoded : Nat) :
    TcpSocketTable × List TcpOutput :=
  match state.1.connections[encoded]? with
  | none => state
  | some c =>
      match c.tickConnection now with
      | (some c', out) => (state.1.connInsert c.key c', state.2 ++ out)
      | (none, out) => (state.1.connRemove c.key, state.2 ++ out)

/-- `tick` (`tcp.rs:944-955`). -/
def tick (t : TcpSocketTable) (now : Nat) : TcpSocketTable × List TcpOutput :=
  t.connections.keys.foldl (tickKey now) ({ t with lastNow := now }, [])

/-! ## Runs -/

inductive Call where
  | connect (localAddr remoteAddr : SocketApiAddr)
  | listen (port : UInt16) (backlog : Nat)
  | accept (port : UInt16)
  | send (key : TcpConnectionKey) (data : List UInt8)
  | recv (key : TcpConnectionKey) (room : Nat)
  | close (key : TcpConnectionKey)
  | handleSegment (header : TcpHeader) (payload : List UInt8) (srcIp dstIp : Ipv4Addr) (now : Nat)
  | tick (now : Nat)

/-- The table after a call and what the call emits. -/
def step (t : TcpSocketTable) : Call → TcpSocketTable × List TcpOutput
  | .connect localAddr remoteAddr => (t.connect localAddr remoteAddr).2
  | .listen port backlog => ((t.listen port backlog).2, [])
  | .accept port => ((t.accept port).2, [])
  | .send key data => (t.send key data).2
  | .recv key room => ((t.recv key room).2, [])
  | .close key => (t.close key).2
  | .handleSegment header payload srcIp dstIp now => t.handleSegment header payload srcIp dstIp now
  | .tick now => t.tick now

end TcpSocketTable

end NexaCore.Net
