import NexaCore.Net.Tcp.Segment

/-!
# The TCP control block

Embedding of `TcpControlBlock` (`nexacore-net/src/tcp.rs`) and of what the socket table does to
one connection: sending, receiving, closing, arriving segments and acknowledgements, the timer. A
function returns the block after it, which the code changes in place, and what it emits.

Sequence numbers wrap. Times, windows and thresholds are natural numbers; the sums that could
leave `u32` saturate in the code, and the others cannot.
-/

namespace NexaCore.Net

open TcpFlags

/-! ## Constants -/

/-- `DEFAULT_MSS` to `INITIAL_CWND` (`tcp.rs:53-68`). -/
def defaultMss : Nat := 1460

def rtoInitialMs : Nat := 1000

def maxRetransmit : Nat := 5

def timeWaitMs : Nat := 120000

def initialSsthresh : Nat := 65535

def initialCwnd : Nat := 4 * defaultMss

/-- `MAX_WINDOW_SCALE` (`tcp.rs:197`). -/
def maxWindowScale : Nat := 14

/-! ## Sequence numbers -/

/-- `seq_lt` (`tcp.rs:368-371`). -/
def seqLt (a b : Seq) : Bool := decide ((b - a).toNat < 0x80000000) && decide (a ≠ b)

/-- `seq_le` (`tcp.rs:375-377`). -/
def seqLe (a b : Seq) : Bool := a == b || seqLt a b

/-! ## The control block -/

/-- `TcpState` (`tcp.rs:76-99`). -/
inductive TcpState where
  | closed
  | listen
  | synSent
  | synReceived
  | established
  | finWait1
  | finWait2
  | closeWait
  | closing
  | lastAck
  | timeWait
  deriving DecidableEq, Repr

/-- `RetransmitEntry` (`tcp.rs:103-112`). -/
structure RetransmitEntry where
  seq : Seq
  data : List UInt8
  sentAt : Nat
  retransmitCount : Nat
  deriving DecidableEq, Repr

/-- What has happened on a connection. The code does not keep it and no function reads it; the
specifications refer to it. -/
structure History where
  /-- The segments that `connect` and `send` emitted, with their distance from `iss`. -/
  originals : List (Nat × Segment) := []
  /-- The bytes that `send` accepted. -/
  accepted : List UInt8 := []
  /-- By how much `snd_una` has moved. -/
  acked : Nat := 0
  /-- How much could be unacknowledged when the last new byte was sent. -/
  allowance : Nat := 0
  /-- The bytes that `recv` returned. -/
  taken : List UInt8 := []
  deriving DecidableEq, Repr

/-- `TcpControlBlock` (`tcp.rs:116-181`). -/
structure TcpControlBlock extends History where
  localAddr : SocketApiAddr
  remoteAddr : SocketApiAddr
  state : TcpState
  sndUna : Seq
  sndNxt : Seq
  sndWnd : UInt16
  iss : Seq
  rcvNxt : Seq
  rcvWnd : UInt16
  irs : Seq
  recvBuffer : List UInt8
  retransmitQueue : List RetransmitEntry
  rtoMs : Nat
  cwnd : Nat
  ssthresh : Nat
  mss : Nat
  dupAckCount : Nat
  sndWscale : Nat
  timeWaitStartedMs : Nat
  deriving DecidableEq, Repr

/-- `scaled_window` (`tcp.rs:279-281`). -/
def scaledWindow (window : UInt16) (shift : Nat) : Nat :=
  window.toNat * 2 ^ min shift maxWindowScale

namespace TcpControlBlock

/-- The fields that `new_syn_sent` and `new_syn_received` (`tcp.rs:385-442`) set alike. -/
def fresh (localAddr remoteAddr : SocketApiAddr) (state : TcpState) (iss : Seq) (sndWnd : UInt16)
    (rcvNxt irs : Seq) : TcpControlBlock where
  localAddr := localAddr
  remoteAddr := remoteAddr
  state := state
  sndUna := iss
  sndNxt := iss + 1
  sndWnd := sndWnd
  iss := iss
  rcvNxt := rcvNxt
  rcvWnd := 65535
  irs := irs
  recvBuffer := []
  retransmitQueue := []
  rtoMs := rtoInitialMs
  cwnd := initialCwnd
  ssthresh := initialSsthresh
  mss := defaultMss
  dupAckCount := 0
  sndWscale := 0
  timeWaitStartedMs := 0

/-- `new_syn_sent` (`tcp.rs:385-410`). -/
def newSynSent (localAddr remoteAddr : SocketApiAddr) (iss : Seq) : TcpControlBlock :=
  fresh localAddr remoteAddr .synSent iss 0 0 0

/-- `new_syn_received` (`tcp.rs:416-441`). -/
def newSynReceived (localAddr remoteAddr : SocketApiAddr) (irs iss : Seq) : TcpControlBlock :=
  fresh localAddr remoteAddr .synReceived iss 65535 (irs + 1) irs

/-- `effective_send_window` (`tcp.rs:456-458`). -/
def effectiveSendWindow (c : TcpControlBlock) : Nat := scaledWindow c.sndWnd c.sndWscale

def key (c : TcpControlBlock) : TcpConnectionKey := (c.localAddr, c.remoteAddr)

/-- A segment from the local to the remote endpoint. -/
def segment (c : TcpControlBlock) (seq ack : Seq) (flags : UInt8) (window : UInt16)
    (payload : List UInt8) : Segment :=
  buildTcpSegment c.localAddr.ip c.remoteAddr.ip c.localAddr.port c.remoteAddr.port seq ack flags
    window payload

def emit (c : TcpControlBlock) (seq ack : Seq) (flags : UInt8) (window : UInt16)
    (payload : List UInt8) : TcpOutput :=
  .sendSegment (c.segment seq ack flags window payload) c.remoteAddr.ip

def emitAck (c : TcpControlBlock) : TcpOutput := c.emit c.sndNxt c.rcvNxt TcpFlags.ack c.rcvWnd []

/-- `snd_una = ack`. -/
def advance (c : TcpControlBlock) (ack : Seq) : TcpControlBlock :=
  { c with sndUna := ack, acked := c.acked + (ack - c.sndUna).toNat }

/-! ## Opening -/

/-- The SYN of an active open (`tcp.rs:600-615`). -/
def synSegment (c : TcpControlBlock) : Segment :=
  buildTcpSegmentWithOptions c.localAddr.ip c.remoteAddr.ip c.localAddr.port c.remoteAddr.port
    c.iss 0 syn c.rcvWnd (encodeMss defaultMss) []

/-- The control block that `connect` inserts (`tcp.rs:599-638`): the whole packet of the SYN is
queued for retransmission. -/
def opened (localAddr remoteAddr : SocketApiAddr) (iss : Seq) (now : Nat) : TcpControlBlock :=
  let c := newSynSent localAddr remoteAddr iss
  { c with
    retransmitQueue := [⟨iss, c.synSegment.packet, now, 0⟩]
    originals := [(0, c.synSegment)] }

/-- The SYN+ACK of a passive open (`tcp.rs:877-891`). -/
def synAckSegment (c : TcpControlBlock) : Segment :=
  buildTcpSegmentWithOptions c.localAddr.ip c.remoteAddr.ip c.localAddr.port c.remoteAddr.port
    c.iss c.rcvNxt (syn ||| TcpFlags.ack) c.rcvWnd (encodeMss defaultMss) []

/-! ## Sending and receiving -/

/-- How much may be unacknowledged: one segment, or what both the congestion window and the
window of the peer allow. Not computed by the code. -/
def sendAllowance (c : TcpControlBlock) : Nat := max c.mss (min c.cwnd c.effectiveSendWindow)

/-- `slice::chunks`, with the length of the slice as fuel. -/
def chunks (size : Nat) : Nat → List UInt8 → List (List UInt8)
  | 0, _ => []
  | _ + 1, [] => []
  | fuel + 1, data@(_ :: _) => data.take size :: chunks size fuel (data.drop size)

/-- The block after one turn of the loop of `send` (`tcp.rs:706-733`). -/
def sendChunk (now : Nat) (c : TcpControlBlock) (chunk : List UInt8) : TcpControlBlock :=
  { c with
    sndNxt := c.sndNxt + BitVec.ofNat 32 chunk.length
    retransmitQueue := c.retransmitQueue ++ [⟨c.sndNxt, chunk, now, 0⟩]
    originals := c.originals ++ [(1 + c.accepted.length,
      c.segment c.sndNxt c.rcvNxt (TcpFlags.ack ||| psh) c.rcvWnd chunk)]
    accepted := c.accepted ++ chunk
    allowance := c.sendAllowance }

/-- The loop of `send`. -/
def sendChunks (now : Nat) : List (List UInt8) → TcpControlBlock → TcpControlBlock × List TcpOutput
  | [], c => (c, [])
  | chunk :: rest, c =>
      let output := c.emit c.sndNxt c.rcvNxt (TcpFlags.ack ||| psh) c.rcvWnd chunk
      let (c, out) := sendChunks now rest (c.sendChunk now chunk)
      (c, output :: out)

/-- `send` on a connection that is found (`tcp.rs:702-734`). -/
def send (c : TcpControlBlock) (now : Nat) (data : List UInt8) :
    Except NetError Nat × TcpControlBlock × List TcpOutput :=
  if c.state = .established ∨ c.state = .closeWait then
    (.ok data.length, sendChunks now (chunks (max c.mss 1) data.length data) c)
  else (.error .invalidArgument, c, [])

/-- `recv` with a buffer of `room` bytes (`tcp.rs:744-750`): the bytes returned. -/
def recv (c : TcpControlBlock) (room : Nat) : List UInt8 × TcpControlBlock :=
  let n := min room c.recvBuffer.length
  (c.recvBuffer.take n,
    { c with recvBuffer := c.recvBuffer.drop n, taken := c.taken ++ c.recvBuffer.take n })

/-- The FIN of `close` and the state after it. -/
def closeTo (c : TcpControlBlock) (state : TcpState) : TcpControlBlock × List TcpOutput :=
  ({ c with sndNxt := c.sndNxt + 1, state },
    [c.emit c.sndNxt c.rcvNxt (fin ||| TcpFlags.ack) c.rcvWnd []])

/-- `close` on a connection that is found (`tcp.rs:764-808`). -/
def close (c : TcpControlBlock) : TcpControlBlock × List TcpOutput :=
  match c.state with
  | .established => c.closeTo .finWait1
  | .closeWait => c.closeTo .lastAck
  | _ => (c, [])

/-! ## Acknowledgements -/

/-- The third duplicate acknowledgement (`tcp.rs:1266-1293`). -/
def fastRetransmit (c : TcpControlBlock) : TcpControlBlock × List TcpOutput :=
  let ssthresh := max (c.cwnd / 2) (2 * c.mss)
  ({ c with ssthresh, cwnd := ssthresh + 3 * c.mss },
    (c.retransmitQueue.take 1).map fun entry =>
      c.emit entry.seq c.rcvNxt (TcpFlags.ack ||| psh) c.rcvWnd entry.data)

/-- An entry ends after an acknowledged number (`tcp.rs:1308-1313`). -/
def keepsEntry (ack : Seq) (entry : RetransmitEntry) : Bool :=
  seqLt ack (entry.seq + BitVec.ofNat 32 entry.data.length)

/-- The congestion window after a new acknowledgement (`tcp.rs:1324-1333`). -/
def growWindow (c : TcpControlBlock) : TcpControlBlock :=
  if c.cwnd < c.ssthresh then { c with cwnd := min (c.cwnd + c.mss) (2 ^ 32 - 1) }
  else
    let inc := min (c.mss * c.mss) (2 ^ 32 - 1) / max c.cwnd 1
    { c with cwnd := min (c.cwnd + max inc 1) (2 ^ 32 - 1) }

/-- `process_ack` (`tcp.rs:1250-1334`). -/
def processAck (c : TcpControlBlock) (header : TcpHeader) : TcpControlBlock × List TcpOutput :=
  let ack := header.ackNum
  if ack = c.sndUna ∧ c.retransmitQueue ≠ [] then
    let c := { c with dupAckCount := min (c.dupAckCount + 1) 255 }
    if c.dupAckCount = 3 then c.fastRetransmit else (c, [])
  else if seqLt c.sndUna ack && seqLe ack c.sndNxt then
    let c := { c with dupAckCount := 0 }
    let c := { c.advance ack with sndWnd := header.window }
    let c := { c with retransmitQueue := c.retransmitQueue.filter (keepsEntry ack) }
    (c.growWindow, [])
  else (c, [])

/-! ## The state machine -/

/-- What becomes of a connection after a segment. -/
inductive Disposition where
  /-- It stays in the connection map. -/
  | keep (c : TcpControlBlock)
  /-- It is removed. -/
  | remove
  /-- It moves to the backlog of its listener. -/
  | enqueue (c : TcpControlBlock)

/-- `SynSent` (`tcp.rs:989-1044`). -/
def processSynSent (c : TcpControlBlock) (header : TcpHeader) : Disposition × List TcpOutput :=
  if TcpFlags.Has header.flags syn ∧ TcpFlags.Has header.flags TcpFlags.ack then
    if header.ackNum ≠ c.sndNxt then
      (.keep c, [c.emit header.ackNum 0 rst 0 []])
    else
      let c := { c with irs := header.seqNum, rcvNxt := header.seqNum + 1 }
      let c := { c.advance header.ackNum with sndWnd := header.window, state := .established }
      let c := { c with retransmitQueue := [] }
      (.keep c, [c.emitAck, .connectionEstablished c.key])
  else if TcpFlags.Has header.flags rst then (.remove, [.connectionRefused c.key])
  else (.keep c, [])

/-- `SynReceived` (`tcp.rs:1046-1062`). -/
def processSynReceived (c : TcpControlBlock) (header : TcpHeader) : Disposition × List TcpOutput :=
  if TcpFlags.Has header.flags TcpFlags.ack ∧ header.ackNum = c.sndNxt then
    (.enqueue { c.advance header.ackNum with sndWnd := header.window, state := .established },
      [.connectionEstablished c.key])
  else (.keep c, [])

/-- The data of a segment in `Established` (`tcp.rs:1069-1097`). -/
def receiveData (c : TcpControlBlock) (header : TcpHeader) (payload : List UInt8) :
    TcpControlBlock × List TcpOutput :=
  if payload ≠ [] ∧ header.seqNum = c.rcvNxt then
    let c := { c with
      recvBuffer := c.recvBuffer ++ payload
      rcvNxt := c.rcvNxt + BitVec.ofNat 32 payload.length }
    (c, [c.emitAck, .dataReceived c.key])
  else (c, [])

/-- The end of the peer's stream is consumed: `rcv_nxt` moves by one. -/
def consumeFin (c : TcpControlBlock) (state : TcpState) : TcpControlBlock :=
  { c with rcvNxt := c.rcvNxt + 1, state }

/-- `Established` (`tcp.rs:1064-1121`). -/
def processEstablished (c : TcpControlBlock) (header : TcpHeader) (payload : List UInt8) :
    TcpControlBlock × List TcpOutput :=
  let (c, ackOut) :=
    if TcpFlags.Has header.flags TcpFlags.ack then c.processAck header else (c, [])
  let (c, dataOut) := c.receiveData header payload
  if TcpFlags.Has header.flags fin then
    let c := c.consumeFin .closeWait
    (c, ackOut ++ dataOut ++ [c.emitAck])
  else (c, ackOut ++ dataOut)

/-- `FinWait1` (`tcp.rs:1123-1163`): an acknowledgement of the FIN leaves the retransmit queue as
it is. -/
def processFinWait1 (c : TcpControlBlock) (header : TcpHeader) (now : Nat) :
    TcpControlBlock × List TcpOutput :=
  let c :=
    if TcpFlags.Has header.flags TcpFlags.ack ∧ header.ackNum = c.sndNxt then
      { c.advance header.ackNum with state := .finWait2 }
    else c
  if TcpFlags.Has header.flags fin then
    if c.state = .finWait2 then
      let c := { c.consumeFin .timeWait with timeWaitStartedMs := now }
      (c, [c.emitAck])
    else
      let c := c.consumeFin .closing
      (c, [c.emitAck])
  else (c, [])

/-- `FinWait2` (`tcp.rs:1165-1189`). -/
def processFinWait2 (c : TcpControlBlock) (header : TcpHeader) (now : Nat) :
    TcpControlBlock × List TcpOutput :=
  if TcpFlags.Has header.flags fin then
    let c := { c.consumeFin .timeWait with timeWaitStartedMs := now }
    (c, [c.emitAck])
  else (c, [])

/-- `Closing` (`tcp.rs:1191-1201`). -/
def processClosing (c : TcpControlBlock) (header : TcpHeader) (now : Nat) : TcpControlBlock :=
  if TcpFlags.Has header.flags TcpFlags.ack ∧ header.ackNum = c.sndNxt then
    { c with state := .timeWait, timeWaitStartedMs := now }
  else c

/-- `TimeWait` (`tcp.rs:1216-1238`). -/
def processTimeWait (c : TcpControlBlock) (header : TcpHeader) (now : Nat) :
    TcpControlBlock × List TcpOutput :=
  if TcpFlags.Has header.flags fin then
    let c := { c with timeWaitStartedMs := now }
    (c, [c.emitAck])
  else (c, [])

/-- `process_segment` (`tcp.rs:974-1244`). -/
def processSegment (c : TcpControlBlock) (header : TcpHeader) (payload : List UInt8) (now : Nat) :
    Disposition × List TcpOutput :=
  match c.state with
  | .synSent => c.processSynSent header
  | .synReceived => c.processSynReceived header
  | .established => ((c.processEstablished header payload).map .keep id)
  | .finWait1 => ((c.processFinWait1 header now).map .keep id)
  | .finWait2 => ((c.processFinWait2 header now).map .keep id)
  | .closing => (.keep (c.processClosing header now), [])
  | .lastAck =>
      if TcpFlags.Has header.flags TcpFlags.ack ∧ header.ackNum = c.sndNxt then
        (.remove, [.connectionClosed c.key])
      else (.keep c, [])
  | .timeWait => ((c.processTimeWait header now).map .keep id)
  | .closed | .listen | .closeWait => (.keep c, [])

/-! ## The timer -/

/-- The first entry that meets a condition, changed. -/
def modifyFirst (found : RetransmitEntry → Bool) (change : RetransmitEntry → RetransmitEntry) :
    List RetransmitEntry → List RetransmitEntry
  | [] => []
  | entry :: rest =>
      if found entry then change entry :: rest else entry :: modifyFirst found change rest

/-- The block after the retransmission of the entry at a sequence number (`tcp.rs:1394-1418`). -/
def resend (c : TcpControlBlock) (seq : Seq) (now : Nat) : TcpControlBlock :=
  { c with
    retransmitQueue := modifyFirst (fun entry => entry.seq == seq)
      (fun entry => { entry with retransmitCount := entry.retransmitCount + 1, sentAt := now })
      c.retransmitQueue
    rtoMs := min (min (c.rtoMs * 2) (2 ^ 64 - 1)) 60000
    ssthresh := max (c.cwnd / 2) (2 * c.mss)
    cwnd := c.mss }

/-- The loop over the expired entries (`tcp.rs:1367-1419`). `none` says that the connection was
reset. -/
def resendExpired (now : Nat) :
    List RetransmitEntry → TcpControlBlock → Option TcpControlBlock × List TcpOutput
  | [], c => (some c, [])
  | entry :: rest, c =>
      match c.retransmitQueue.find? (fun queued => queued.seq == entry.seq) with
      | none => resendExpired now rest c
      | some queued =>
          if queued.retransmitCount ≥ maxRetransmit then
            (none, [c.emit c.sndNxt c.rcvNxt rst 0 [], .connectionClosed c.key])
          else
            let output :=
              c.emit queued.seq c.rcvNxt (TcpFlags.ack ||| psh) c.rcvWnd queued.data
            let (c, out) := resendExpired now rest (c.resend entry.seq now)
            (c, output :: out)

/-- The entries whose timeout has passed (`tcp.rs:1356-1365`). -/
def expired (c : TcpControlBlock) (now : Nat) : List RetransmitEntry :=
  c.retransmitQueue.filter fun entry => decide (now - entry.sentAt ≥ c.rtoMs)

/-- `tick_connection` (`tcp.rs:1339-1421`). `none` says that the connection is removed. -/
def tickConnection (c : TcpControlBlock) (now : Nat) : Option TcpControlBlock × List TcpOutput :=
  if c.state = .timeWait ∧ now - c.timeWaitStartedMs ≥ timeWaitMs then
    (none, [.connectionClosed c.key])
  else resendExpired now (c.expired now) c

end TcpControlBlock

end NexaCore.Net
