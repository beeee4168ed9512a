import NexaCore.Net.Tcp.SocketTable
import NexaCore.Misc.MapFold
import NexaCore.Misc.Run
import Mathlib

/-!
# Steps of the socket table

What a call does to the connections: each of them is left alone, or sees one event, or is new. A
predicate that holds of the new ones and is kept by the events holds of every connection of every
table reached, in the map and in the backlogs.
-/

namespace NexaCore.Net

open Misc Std List TcpControlBlock Nat UInt8 TcpFlags Option

variable {t : TcpSocketTable}

/-! ## Keys -/

theorem foldl_bytes_eq (bytes : List UInt8) :
    bytes.foldl (fun value byte => value * 256 + byte.toNat) 0 =
      ofDigits 256 (bytes.reverse.map toNat) := by
  rw [ofDigits_eq_foldr, foldr_map, foldr_reverse]
  simp only [cast_id, add_comm, mul_comm]

theorem digits_lt (bytes : List UInt8) : ∀ d ∈ bytes.reverse.map toNat, d < 256 := by
  intro d mem
  obtain ⟨byte, -, rfl⟩ := mem_map.mp mem
  exact byte.toNat_lt

theorem foldl_bytes_lt (bytes : List UInt8) :
    bytes.foldl (fun value byte => value * 256 + byte.toNat) 0 < 256 ^ bytes.length := by
  have below := ofDigits_lt_base_pow_length (by decide) (digits_lt bytes)
  rwa [foldl_bytes_eq, length_map, length_reverse] at *

theorem foldl_bytes_inj {bytes bytes' : List UInt8} (length : bytes.length = bytes'.length)
    (same : bytes.foldl (fun value byte => value * 256 + byte.toNat) 0 =
      bytes'.foldl (fun value byte => value * 256 + byte.toNat) 0) : bytes = bytes' := by
  rw [foldl_bytes_eq, foldl_bytes_eq] at same
  have digits := ofDigits_inj_of_len_eq (by decide) (by simpa using length) (digits_lt bytes)
    (digits_lt bytes') same
  have inj : Function.Injective UInt8.toNat := fun _ _ => UInt8.toNat_inj.mp
  exact reverse_injective (inj.list_map digits)

theorem encodeAddrKey_lt (addr : SocketApiAddr) : encodeAddrKey addr < 2 ^ 64 := by
  have ip := foldl_bytes_lt addr.ip.toList
  have port := addr.port.toNat_lt
  rw [Vector.length_toList] at ip
  unfold encodeAddrKey
  omega

theorem encodeAddrKey_inj {a b : SocketApiAddr} (same : encodeAddrKey a = encodeAddrKey b) :
    a = b := by
  have port := a.port.toNat_lt
  have port' := b.port.toNat_lt
  unfold encodeAddrKey at same
  have ips : a.ip.toList = b.ip.toList := foldl_bytes_inj (by simp) (by omega)
  have ports : a.port = b.port := UInt16.toNat_inj.mp (by omega)
  cases a
  cases b
  simp only [SocketApiAddr.mk.injEq]
  exact ⟨Vector.toList_inj.mp ips, ports⟩

theorem encodeConnKey_inj {k k' : TcpConnectionKey} (same : encodeConnKey k = encodeConnKey k') :
    k = k' := by
  have low := encodeAddrKey_lt k.2
  have low' := encodeAddrKey_lt k'.2
  unfold encodeConnKey at same
  exact Prod.ext (encodeAddrKey_inj (by omega)) (encodeAddrKey_inj (by omega))

/-! ## Events of a connection -/

/-- What can happen to a connection that exists. -/
inductive Event where
  | send (now : Nat) (data : List UInt8)
  | recv (room : Nat)
  | close
  | segment (header : TcpHeader) (payload : List UInt8) (now : Nat)
  | tick (now : Nat)

namespace TcpControlBlock

/-- The control block that stays in the table, in the map or in a backlog. -/
def Disposition.block : Disposition → Option TcpControlBlock
  | .keep c => some c
  | .remove => none
  | .enqueue c => some c

/-- The control block after an event; `none` if the connection is removed. -/
def apply (c : TcpControlBlock) : Event → Option TcpControlBlock
  | .send now data => some (c.send now data).2.1
  | .recv room => some (c.recv room).2
  | .close => some c.close.1
  | .segment header payload now => (c.processSegment header payload now).1.block
  | .tick now => (c.tickConnection now).1

/-! ## What the functions change -/

/-- The pieces of the stream in the retransmit queue, with their sequence numbers. -/
def pieces (c : TcpControlBlock) : List (Seq × List UInt8) :=
  c.retransmitQueue.map fun entry => (entry.seq, entry.data)

theorem sendChunks_eq (now : Nat) (data : List (List UInt8)) (c : TcpControlBlock) :
    ∃ sndNxt queue originals accepted allowance, (sendChunks now data c).1 = { c with
      sndNxt, retransmitQueue := queue, originals, accepted,
      allowance } := by
  induction data generalizing c with
  | nil => exact ⟨_, _, _, _, _, rfl⟩
  | cons chunk rest ih =>
    obtain ⟨sndNxt, queue, originals, accepted, allowance, eq⟩ := ih (c.sendChunk now chunk)
    exact ⟨sndNxt, queue, originals, accepted, allowance, eq⟩

theorem growWindow_eq (c : TcpControlBlock) : ∃ cwnd, c.growWindow = { c with cwnd } := by
  unfold growWindow
  split <;> exact ⟨_, rfl⟩

def acknowledged (c : TcpControlBlock) (header : TcpHeader) (cwnd : Nat) : TcpControlBlock :=
  { c.advance header.ackNum with
    dupAckCount := 0
    sndWnd := header.window
    retransmitQueue := c.retransmitQueue.filter (keepsEntry header.ackNum)
    cwnd }

/-- The block and the output after the acknowledgement of a segment in `Established`. -/
def afterAck (c : TcpControlBlock) (header : TcpHeader) : TcpControlBlock × List TcpOutput :=
  if TcpFlags.Has header.flags TcpFlags.ack then c.processAck header else (c, [])

/-- An acknowledgement is counted as a duplicate or ignored, or it is a new one. -/
theorem afterAck_cases (c : TcpControlBlock) (header : TcpHeader) :
    (∃ dupAckCount ssthresh cwnd, (c.afterAck header).1 = { c with
      dupAckCount, ssthresh, cwnd }) ∨
    (seqLt c.sndUna header.ackNum = true ∧ seqLe header.ackNum c.sndNxt = true ∧
      ∃ cwnd, (c.afterAck header).1 = c.acknowledged header cwnd) := by
  unfold afterAck processAck
  dsimp only
  split
  · split
    · left
      split <;> exact ⟨_, _, _, rfl⟩
    · split
      · rename_i new
        rw [Bool.and_eq_true] at new
        obtain ⟨cwnd, grown⟩ := growWindow_eq { c.advance header.ackNum with
          dupAckCount := 0
          sndWnd := header.window
          retransmitQueue := c.retransmitQueue.filter (keepsEntry header.ackNum) }
        exact .inr ⟨new.1, new.2, cwnd, grown⟩
      · exact .inl ⟨_, _, _, rfl⟩
  · exact .inl ⟨_, _, _, rfl⟩

/-- `Established` takes the acknowledgement, the data and the FIN of a segment in this order. -/
theorem processEstablished_eq (c : TcpControlBlock) (header : TcpHeader) (payload : List UInt8) :
    c.processEstablished header payload =
      let data := (c.afterAck header).1.receiveData header payload
      if TcpFlags.Has header.flags fin then
        (data.1.consumeFin .closeWait,
          (c.afterAck header).2 ++ data.2 ++ [(data.1.consumeFin .closeWait).emitAck])
      else (data.1, (c.afterAck header).2 ++ data.2) := rfl

theorem pieces_resend (c : TcpControlBlock) (seq : Seq) (now : Nat) :
    (c.resend seq now).pieces = c.pieces := by
  rw [pieces, pieces, resend]
  dsimp only
  induction c.retransmitQueue with
  | nil => rfl
  | cons entry rest ih =>
    rw [modifyFirst]
    split
    · rfl
    · rw [map_cons, map_cons, ih]

variable {now : Nat} {c c' : TcpControlBlock}

/-- The timer changes the times and counters of the queue, the timeout and the window. -/
theorem resendExpired_eq_some {entries : List RetransmitEntry}
    (kept : (resendExpired now entries c).1 = some c') :
    c'.pieces = c.pieces ∧ ∃ queue rtoMs ssthresh cwnd, c' = { c with
      retransmitQueue := queue, rtoMs, ssthresh, cwnd } := by
  induction entries generalizing c with
  | nil =>
    cases kept
    exact ⟨rfl, _, _, _, _, rfl⟩
  | cons entry rest ih =>
    rw [resendExpired] at kept
    split at kept
    · exact ih kept
    · split at kept
      · cases kept
      · obtain ⟨pieces, queue, rtoMs, ssthresh, cwnd, eq⟩ := ih (c := c.resend entry.seq now) kept
        exact ⟨pieces.trans (c.pieces_resend entry.seq now), queue, rtoMs, ssthresh, cwnd, eq⟩

theorem tickConnection_eq_some (kept : (c.tickConnection now).1 = some c') :
    c'.pieces = c.pieces ∧ ∃ queue rtoMs ssthresh cwnd, c' = { c with
      retransmitQueue := queue, rtoMs, ssthresh, cwnd } := by
  unfold tickConnection at kept
  split at kept
  · cases kept
  · exact resendExpired_eq_some kept

/-- The block after the SYN+ACK of an active open. -/
def connected (c : TcpControlBlock) (header : TcpHeader) : TcpControlBlock :=
  { c.advance header.ackNum with
    irs := header.seqNum
    rcvNxt := header.seqNum + 1
    sndWnd := header.window
    state := .established
    retransmitQueue := [] }

def completed (c : TcpControlBlock) (header : TcpHeader) : TcpControlBlock :=
  { c.advance header.ackNum with sndWnd := header.window, state := .established }

/-- What a segment can make of a connection that stays. -/
inductive AfterSegment (header : TcpHeader) (payload : List UInt8) (now : Nat)
    (c : TcpControlBlock) : TcpControlBlock → Prop
  | same : AfterSegment header payload now c c
  | connected (state : c.state = .synSent) (ack : header.ackNum = c.sndNxt) :
      AfterSegment header payload now c (c.connected header)
  | completed (state : c.state = .synReceived) (ack : header.ackNum = c.sndNxt) :
      AfterSegment header payload now c (c.completed header)
  | established (state : c.state = .established) :
      AfterSegment header payload now c (c.processEstablished header payload).1
  | finWait1 (state : c.state = .finWait1) :
      AfterSegment header payload now c (c.processFinWait1 header now).1
  | finWait2 (state : c.state = .finWait2) :
      AfterSegment header payload now c (c.processFinWait2 header now).1
  | closing (state : c.state = .closing) :
      AfterSegment header payload now c (c.processClosing header now)
  | timeWait (state : c.state = .timeWait) :
      AfterSegment header payload now c (c.processTimeWait header now).1

variable {header : TcpHeader} {payload : List UInt8}

theorem afterSegment (kept : (c.processSegment header payload now).1.block = some c') :
    AfterSegment header payload now c c' := by
  unfold processSegment at kept
  split at kept
  · rename_i state
    unfold processSynSent at kept
    split at kept
    · split at kept
      · cases kept
        exact .same
      · rename_i ack
        cases kept
        exact .connected state (not_not.mp ack)
    · split at kept
      · cases kept
      · cases kept
        exact .same
  · rename_i state
    unfold processSynReceived at kept
    split at kept
    · rename_i final
      cases kept
      exact .completed state final.2
    · cases kept
      exact .same
  · rename_i state
    cases kept
    exact .established state
  · rename_i state
    cases kept
    exact .finWait1 state
  · rename_i state
    cases kept
    exact .finWait2 state
  · rename_i state
    cases kept
    exact .closing state
  · split at kept
    · cases kept
    · cases kept
      exact .same
  · rename_i state
    cases kept
    exact .timeWait state
  all_goals
    cases kept
    exact .same

/-! ## What never changes -/

/-- The endpoints, the initial sequence number and the segment size. -/
def identity (c : TcpControlBlock) : TcpConnectionKey × Seq × Nat := (c.key, c.iss, c.mss)

theorem identity_afterAck (c : TcpControlBlock) (header : TcpHeader) :
    (c.afterAck header).1.identity = c.identity := by
  rcases c.afterAck_cases header with ⟨_, _, _, eq⟩ | ⟨-, -, _, eq⟩ <;> rw [eq] <;> rfl

theorem identity_receiveData (c : TcpControlBlock) (header : TcpHeader) (payload : List UInt8) :
    (c.receiveData header payload).1.identity = c.identity := by
  unfold receiveData
  split <;> rfl

theorem identity_processEstablished (c : TcpControlBlock) (header : TcpHeader)
    (payload : List UInt8) : (c.processEstablished header payload).1.identity = c.identity := by
  rw [processEstablished_eq]
  dsimp only
  split <;> exact (identity_receiveData ..).trans (c.identity_afterAck header)

theorem identity_afterSegment (after : AfterSegment header payload now c c') :
    c'.identity = c.identity := by
  cases after with
  | same | connected | completed => rfl
  | established => exact c.identity_processEstablished header payload
  | finWait1 =>
    unfold processFinWait1
    dsimp only
    split <;> split <;> (try split) <;> rfl
  | finWait2 =>
    unfold processFinWait2
    split <;> rfl
  | closing =>
    unfold processClosing
    split <;> rfl
  | timeWait =>
    unfold processTimeWait
    split <;> rfl

theorem identity_send (c : TcpControlBlock) (now : Nat) (data : List UInt8) :
    (c.send now data).2.1.identity = c.identity := by
  unfold send
  split
  · obtain ⟨_, _, _, _, _, eq⟩ := sendChunks_eq now (chunks (max c.mss 1) data.length data) c
    dsimp only
    rw [eq]
    rfl
  · rfl

variable {event : Event}

theorem identity_apply (kept : c.apply event = some c') : c'.identity = c.identity := by
  cases event with
  | send now data =>
    cases kept
    exact c.identity_send now data
  | recv room =>
    cases kept
    rfl
  | close =>
    cases kept
    unfold close
    split <;> rfl
  | segment header payload now => exact identity_afterSegment (afterSegment kept)
  | tick now =>
    obtain ⟨-, _, _, _, _, rfl⟩ := tickConnection_eq_some kept
    rfl

theorem key_apply (kept : c.apply event = some c') : c'.key = c.key :=
  congrArg Prod.fst (identity_apply kept)

end TcpControlBlock

namespace TcpSocketTable

/-! ## The connection map -/

theorem encodeConnKey_eq_iff {k k' : TcpConnectionKey} :
    encodeConnKey k = encodeConnKey k' ↔ k = k' :=
  ⟨encodeConnKey_inj, congrArg encodeConnKey⟩

theorem connGet_connInsert (t : TcpSocketTable) (key key' : TcpConnectionKey)
    (c : TcpControlBlock) :
    (t.connInsert key c).connGet key' = if key' = key then some c else t.connGet key' := by
  simp only [connGet, connInsert, getElem?_insert_eq, encodeConnKey_eq_iff]

theorem connGet_connRemove (t : TcpSocketTable) (key key' : TcpConnectionKey) :
    (t.connRemove key).connGet key' = if key' = key then none else t.connGet key' := by
  simp only [connGet, connRemove, getElem?_erase_eq, encodeConnKey_eq_iff]

theorem connGet_advanceIsn (t : TcpSocketTable) (key : TcpConnectionKey) :
    t.advanceIsn.connGet key = t.connGet key := by
  unfold connGet advanceIsn
  rfl

variable {key : TcpConnectionKey} {c : TcpControlBlock}

theorem connInsert_eq_some {key' : TcpConnectionKey} {c' : TcpControlBlock} :
    (t.connInsert key c).connGet key' = some c' ↔
      key = key' ∧ c = c' ∨ t.connGet key' = some c' ∧ key' ≠ key := by
  rw [connGet_connInsert]
  split <;> simp_all [eq_comm]

theorem connRemove_eq_some {key' : TcpConnectionKey} :
    (t.connRemove key).connGet key' = some c ↔ t.connGet key' = some c ∧ key' ≠ key := by
  rw [connGet_connRemove]
  split <;> simp_all

def Keyed (t : TcpSocketTable) : Prop :=
  ∀ encoded c, t.connections[encoded]? = some c → encodeConnKey c.key = encoded

variable {t : TcpSocketTable}

theorem Keyed.key_eq (keyed : t.Keyed) (found : t.connGet key = some c) : c.key = key :=
  encodeConnKey_inj (keyed _ c found)

theorem Keyed.connInsert (keyed : t.Keyed) (own : c.key = key) : (t.connInsert key c).Keyed := by
  intro encoded d found
  rcases insert_eq_some.mp found with ⟨rfl, rfl⟩ | ⟨-, found⟩
  · rw [own]
  · exact keyed encoded d found

theorem Keyed.connRemove (keyed : t.Keyed) (key : TcpConnectionKey) : (t.connRemove key).Keyed := by
  intro encoded d found
  exact keyed encoded d (erase_eq_some.mp found).2

/-! ## The timer -/

variable {state : TcpSocketTable × List TcpOutput}

theorem tickKey_connections (now : Nat) (keyed : state.1.Keyed) (encoded other : Nat) :
    (tickKey now state encoded).1.connections[other]? =
      if other = encoded then
        (state.1.connections[encoded]?).bind fun c => (c.tickConnection now).1
      else state.1.connections[other]? := by
  unfold tickKey
  cases found : state.1.connections[encoded]? with
  | none =>
    dsimp only
    split
    · rename_i same
      rw [same, found]
      rfl
    · rfl
  | some c =>
    have own := keyed encoded c found
    dsimp only [bind_some]
    split
    · rename_i c' out ticked
      rw [connInsert, own, getElem?_insert_eq, ticked]
    · rename_i out ticked
      rw [connRemove, own, getElem?_erase_eq, ticked]

variable {now : Nat}

theorem tickKey_keyed (keyed : state.1.Keyed) (encoded : Nat) :
    (tickKey now state encoded).1.Keyed := by
  intro other d found
  rw [tickKey_connections now keyed] at found
  split at found
  · rename_i same
    obtain ⟨c, here, ticked⟩ := bind_eq_some_iff.mp found
    have kept : c.apply (.tick now) = some d := ticked
    rw [key_apply kept, same]
    exact keyed encoded c here
  · exact keyed other d found

theorem tickKey_out (encoded : Nat) :
    (tickKey now state encoded).2 = state.2 ++
      ((state.1.connections[encoded]?).elim [] fun c => (c.tickConnection now).2) := by
  unfold tickKey
  cases state.1.connections[encoded]? with
  | none => simp
  | some c =>
    dsimp only
    split <;> rename_i ticked <;> simp [ticked]

theorem foldl_tickKey (now : Nat) {keys : List Nat} (distinct : keys.Nodup)
    (keyed : state.1.Keyed) :
    (keys.foldl (tickKey now) state).1.Keyed ∧
    (∀ encoded, (keys.foldl (tickKey now) state).1.connections[encoded]? =
      if encoded ∈ keys then
        (state.1.connections[encoded]?).bind fun c => (c.tickConnection now).1
      else state.1.connections[encoded]?) ∧
    ∀ output ∈ (keys.foldl (tickKey now) state).2, output ∈ state.2 ∨
      ∃ encoded ∈ keys, ∃ c, state.1.connections[encoded]? = some c ∧
        output ∈ (c.tickConnection now).2 := by
  induction keys generalizing state with
  | nil => exact ⟨keyed, fun _ => rfl, fun output mem => .inl mem⟩
  | cons first rest ih =>
    obtain ⟨absent, distinct⟩ := nodup_cons.mp distinct
    obtain ⟨keyed', connections, outputs⟩ := ih distinct (tickKey_keyed keyed first)
    have before := tickKey_connections now keyed first
    refine ⟨keyed', fun encoded => ?_, fun output mem => ?_⟩
    · rw [foldl_cons, connections, before]
      by_cases here : encoded = first
      · simp [here, absent]
      · simp [here]
    · rcases outputs output mem with early | ⟨encoded, later, c, found, mem⟩
      · rw [tickKey_out, mem_append] at early
        rcases early with early | now'
        · exact .inl early
        · cases found : state.1.connections[first]? with
          | none => simp [found] at now'
          | some c => exact .inr ⟨first, .head _, c, found, by simpa [found] using now'⟩
      · have apart : encoded ≠ first := fun same => absent (same ▸ later)
        rw [before, if_neg apart] at found
        exact .inr ⟨encoded, .tail _ later, c, found, mem⟩

theorem tick_spec (keyed : t.Keyed) (now : Nat) :
    (t.tick now).1.Keyed ∧
    (∀ key, (t.tick now).1.connGet key =
      (t.connGet key).bind fun c => (c.tickConnection now).1) ∧
    ∀ output ∈ (t.tick now).2, ∃ key c, t.connGet key = some c ∧
      output ∈ (c.tickConnection now).2 := by
  have start : Keyed (({ t with lastNow := now }, []) : TcpSocketTable × List TcpOutput).1 := keyed
  obtain ⟨keyed', connections, outputs⟩ :=
    foldl_tickKey now (ExtTreeMap.nodup_keys (t := t.connections)) start
  refine ⟨keyed', fun key => ?_, fun output mem => ?_⟩
  · refine (connections (encodeConnKey key)).trans ?_
    split
    · rfl
    · rename_i absent
      have none : t.connections[encodeConnKey key]? = none := by
        rw [ExtTreeMap.mem_keys] at absent
        exact ExtTreeMap.getElem?_eq_none absent
      rw [connGet, none]
      rfl
  · rcases outputs output mem with early | ⟨encoded, -, c, found, mem⟩
    · cases early
    · exact ⟨c.key, c, (congrArg (t.connections[·]?) (keyed encoded c found)).trans found, mem⟩

theorem tick_listeners (t : TcpSocketTable) (now : Nat) : (t.tick now).1.listeners =
    t.listeners := by
  refine foldlRecOn (motive := fun state => state.1.listeners = t.listeners) t.connections.keys
    (tickKey now) (b := ({ t with lastNow := now }, [])) rfl fun state same encoded _ => ?_
  unfold tickKey
  split
  · exact same
  · split <;> exact same

/-! ## What a call can do -/

/-- The event that a call is for the connection at a key. -/
def eventAt (t : TcpSocketTable) (key : TcpConnectionKey) : Call → Option Event
  | .send k data => if k = key then some (.send t.lastNow data) else none
  | .recv k room => if k = key then some (.recv room) else none
  | .close k => if k = key then some .close else none
  | .handleSegment header payload srcIp dstIp now =>
      if segmentKey header srcIp dstIp = key ∧ ¬TcpFlags.Has header.flags rst then
        some (.segment header payload now)
      else none
  | .tick now => some (.tick now)
  | _ => none

theorem eq_handleSegment_of_eventAt {key : TcpConnectionKey} {call : Call}
    {header : TcpHeader} {payload : List UInt8} {now : Nat}
    (seen : t.eventAt key call = some (.segment header payload now)) :
    ∃ srcIp dstIp, call = .handleSegment header payload srcIp dstIp now ∧
      segmentKey header srcIp dstIp = key ∧ ¬TcpFlags.Has header.flags rst := by
  cases call with
  | handleSegment header' payload' srcIp dstIp now' =>
    dsimp only [eventAt] at seen
    split at seen
    · rename_i own
      cases seen
      exact ⟨srcIp, dstIp, rfl, own⟩
    · cases seen
  | send | recv | close =>
    dsimp only [eventAt] at seen
    split at seen <;> cases seen
  | connect | listen | accept | tick => cases seen

/-- Where the connection at a key after a call comes from. -/
inductive Origin (t : TcpSocketTable) (call : Call) (key : TcpConnectionKey) :
    TcpControlBlock → Prop
  | same {c : TcpControlBlock} (found : t.connGet key = some c) : Origin t call key c
  | event {c c' : TcpControlBlock} {event : Event} (found : t.connGet key = some c)
      (seen : t.eventAt key call = some event) (kept : c.apply event = some c') :
      Origin t call key c'
  | opened (called : call = .connect key.1 key.2) (absent : t.connGet key = none) :
      Origin t call key (.opened key.1 key.2 t.nextIsn t.lastNow)
  | received {header : TcpHeader} {payload : List UInt8} {srcIp dstIp : Ipv4Addr} {now : Nat}
      (called : call = .handleSegment header payload srcIp dstIp now)
      (own : segmentKey header srcIp dstIp = key) (absent : t.connGet key = none)
      (syn : TcpFlags.Has header.flags syn ∧ ¬TcpFlags.Has header.flags TcpFlags.ack)
      (noReset : ¬TcpFlags.Has header.flags rst) :
      Origin t call key (.newSynReceived key.1 key.2 header.seqNum t.nextIsn)
  | accepted {port : UInt16} {queue : ListenQueue} {c : TcpControlBlock}
      {rest : List TcpControlBlock} (called : call = .accept port)
      (listener : t.listeners[port]? = some queue) (backlog : queue.backlog = c :: rest)
      (own : c.key = key) : Origin t call key c

/-- What a call can make of the table. -/
inductive After (t : TcpSocketTable) (call : Call) : TcpSocketTable → Prop
  | idle (now : Nat) : After t call { t with lastNow := now }
  | opened (key : TcpConnectionKey) (nextIsn : Seq) (called : call = .connect key.1 key.2)
      (absent : t.connGet key = none) :
      After t call
        (connInsert { t with nextIsn } key (.opened key.1 key.2 t.nextIsn t.lastNow))
  | listened {port : UInt16} {backlog : Nat} (called : call = .listen port backlog)
      (absent : port ∉ t.listeners) :
      After t call { t with listeners := t.listeners.insert port ⟨[], backlog⟩ }
  | accepted {port : UInt16} {queue : ListenQueue} {c : TcpControlBlock}
      {rest : List TcpControlBlock} (called : call = .accept port)
      (listener : t.listeners[port]? = some queue) (backlog : queue.backlog = c :: rest) :
      After t call ((t.setBacklog port queue rest).connInsert c.key c)
  | event {key : TcpConnectionKey} {c c' : TcpControlBlock} {event : Event} (now : Nat)
      (found : t.connGet key = some c) (seen : t.eventAt key call = some event)
      (kept : c.apply event = some c') : After t call (connInsert { t with lastNow := now } key c')
  | removed (key : TcpConnectionKey) (now : Nat) :
      After t call (connRemove { t with lastNow := now } key)
  | enqueued {header : TcpHeader} {payload : List UInt8} {srcIp dstIp : Ipv4Addr} {now : Nat}
      {queue : ListenQueue} {c : TcpControlBlock}
      (called : call = .handleSegment header payload srcIp dstIp now)
      (noReset : ¬TcpFlags.Has header.flags rst)
      (found : t.connGet (segmentKey header srcIp dstIp) = some c) (state : c.state = .synReceived)
      (final : TcpFlags.Has header.flags TcpFlags.ack ∧ header.ackNum = c.sndNxt)
      (listener : t.listeners[c.localAddr.port]? = some queue) :
      After t call ((connRemove { t with lastNow := now }
        (segmentKey header srcIp dstIp)).setBacklog
        c.localAddr.port queue (queue.backlog ++ [c.completed header]))
  | received {header : TcpHeader} {payload : List UInt8} {srcIp dstIp : Ipv4Addr} {now : Nat}
      (nextIsn : Seq) (called : call = .handleSegment header payload srcIp dstIp now)
      (absent : t.connGet (segmentKey header srcIp dstIp) = none)
      (syn : TcpFlags.Has header.flags syn ∧ ¬TcpFlags.Has header.flags TcpFlags.ack)
      (noReset : ¬TcpFlags.Has header.flags rst) :
      After t call (connInsert { t with nextIsn, lastNow := now } (segmentKey header srcIp dstIp)
        (.newSynReceived (segmentKey header srcIp dstIp).1 (segmentKey header srcIp dstIp).2
          header.seqNum t.nextIsn))
  | ticked {now : Nat} {t' : TcpSocketTable} (called : call = .tick now)
    (done : (t.tick now).1 = t')
      (listeners : t'.listeners = t.listeners) : After t call t'

variable {call : Call} {header : TcpHeader} {payload : List UInt8}

theorem processSegment_enqueue {d : TcpControlBlock}
    (queued : (c.processSegment header payload now).1 = .enqueue d) :
    c.state = .synReceived ∧ (TcpFlags.Has header.flags TcpFlags.ack ∧ header.ackNum = c.sndNxt) ∧
      d = c.completed header := by
  unfold processSegment at queued
  split at queued
  · unfold processSynSent at queued
    split at queued
    · split at queued <;> cases queued
    · split at queued <;> cases queued
  · rename_i state
    unfold processSynReceived at queued
    split at queued
    · rename_i final
      cases queued
      exact ⟨state, final, rfl⟩
    · cases queued
  case h_7 => split at queued <;> cases queued
  all_goals cases queued

theorem after (t : TcpSocketTable) (call : Call) : t.After call (t.step call).1 := by
  cases call with
  | connect localAddr remoteAddr =>
    unfold step connect
    dsimp only
    split
    · exact .idle t.lastNow
    · rename_i absent
      exact .opened (localAddr, remoteAddr) _ rfl (by simpa using absent)
  | listen port backlog =>
    unfold step listen
    dsimp only
    split
    · exact .idle t.lastNow
    · exact .listened rfl ‹_›
  | accept port =>
    unfold step accept
    dsimp only
    split
    · exact .idle t.lastNow
    · rename_i queue listener
      split
      · exact .idle t.lastNow
      · exact .accepted rfl listener ‹_›
  | send | recv | close =>
    simp only [step, send, recv, close]
    split
    · exact .idle t.lastNow
    · exact .event t.lastNow ‹_› (if_pos rfl) rfl
  | handleSegment header payload srcIp dstIp now =>
    unfold step handleSegment
    dsimp only
    split
    · split
      · exact .removed _ now
      · exact .idle now
    · rename_i noReset
      split
      · rename_i c found
        cases result : (c.processSegment header payload now).1 with
        | keep d =>
          have kept : c.apply (.segment header payload now) = some d := by
            rw [apply, result]
            rfl
          exact .event now found (if_pos ⟨rfl, noReset⟩) kept
        | remove => exact .removed _ now
        | enqueue d =>
          obtain ⟨state, final, rfl⟩ := processSegment_enqueue result
          simp only [dispose]
          split
          · exact .removed _ now
          · exact After.enqueued (t := t) rfl noReset found state final ‹_›
      · rename_i absent
        split
        · rename_i syn
          split
          · unfold openPassive
            split
            · exact .idle now
            · exact .received _ rfl absent syn noReset
          · exact .idle now
        · exact .idle now
  | tick now => exact .ticked rfl rfl (tick_listeners t now)

/-- The connection at each key after a call is the one before it, or comes from it by an event,
or is new. -/
theorem origin (keyed : t.Keyed) {c' : TcpControlBlock}
    (found : (t.step call).1.connGet key = some c') : t.Origin call key c' := by
  have after := t.after call
  generalize (t.step call).1 = t' at after found
  cases after with
  | idle | listened => exact .same found
  | @ticked now _ called done =>
    subst done
    have seen : t.eventAt key call = some (.tick now) := by rw [called]; rfl
    obtain ⟨c, here, kept⟩ :=
      bind_eq_some_iff.mp (((tick_spec keyed _).2.1 key).symm.trans found)
    exact .event here seen kept
  | opened _ _ called absent =>
    rcases connInsert_eq_some.mp found with ⟨rfl, rfl⟩ | ⟨found, -⟩
    · exact .opened called absent
    · exact .same found
  | accepted called listener backlog =>
    rcases connInsert_eq_some.mp found with ⟨own, rfl⟩ | ⟨found, -⟩
    · exact .accepted called listener backlog own
    · exact .same found
  | event now here seen kept =>
    rcases connInsert_eq_some.mp found with ⟨rfl, rfl⟩ | ⟨found, -⟩
    · exact .event here seen kept
    · exact .same found
  | removed | enqueued => exact .same (connRemove_eq_some.mp found).1
  | received _ called absent syn noReset =>
    rcases connInsert_eq_some.mp found with ⟨rfl, rfl⟩ | ⟨found, -⟩
    · exact .received called rfl absent syn noReset
    · exact .same found

theorem Keyed.step (keyed : t.Keyed) (call : Call) : (t.step call).1.Keyed := by
  have clock : ∀ nextIsn now, Keyed { t with nextIsn, lastNow := now } := fun _ _ => keyed
  have after := t.after call
  generalize (t.step call).1 = t' at after
  cases after with
  | idle | listened => exact keyed
  | opened _ nextIsn => exact (clock nextIsn t.lastNow).connInsert rfl
  | accepted => exact Keyed.connInsert (t := t.setBacklog ..) keyed rfl
  | event now found seen kept =>
    exact (clock t.nextIsn now).connInsert ((key_apply kept).trans (keyed.key_eq found))
  | removed key now => exact (clock t.nextIsn now).connRemove key
  | enqueued => exact Keyed.connRemove (clock t.nextIsn _) _
  | received nextIsn => exact (clock nextIsn _).connInsert rfl
  | ticked _ done => exact done ▸ (tick_spec keyed _).1

/-- A connection that waits after a call waited before it, or an event just moved it there. -/
theorem queued_step {port : UInt16} {queue : ListenQueue}
    (found : (t.step call).1.listeners[port]? = some queue) (mem : c ∈ queue.backlog) :
    (∃ before, t.listeners[port]? = some before ∧ c ∈ before.backlog) ∨
      ∃ key d event, t.connGet key = some d ∧ t.eventAt key call = some event ∧
        d.apply event = some c ∧ c.localAddr.port = port ∧ (t.step call).1.connGet key = none := by
  have after := t.after call
  generalize (t.step call).1 = t' at after found ⊢
  cases after with
  | idle | opened | event | removed | received => exact .inl ⟨queue, found, mem⟩
  | ticked _ _ listeners => exact .inl ⟨queue, listeners ▸ found, mem⟩
  | listened called absent =>
    rcases insert_eq_some.mp found with ⟨-, rfl⟩ | ⟨-, found⟩
    · cases mem
    · exact .inl ⟨queue, found, mem⟩
  | accepted called listener backlog =>
    rcases insert_eq_some.mp found with ⟨rfl, rfl⟩ | ⟨-, found⟩
    · exact .inl ⟨_, listener, backlog ▸ .tail _ mem⟩
    · exact .inl ⟨queue, found, mem⟩
  | @enqueued header payload srcIp dstIp now queue' d called noReset here state final listener =>
    rcases insert_eq_some.mp found with ⟨rfl, rfl⟩ | ⟨-, found⟩
    · rcases mem_append.mp mem with old | last
      · exact .inl ⟨_, listener, old⟩
      · obtain rfl := mem_singleton.mp last
        have kept : d.apply (.segment header payload now) = some (d.completed header) := by
          simp [apply, processSegment, state,
            processSynReceived, final, TcpControlBlock.Disposition.block,
            completed]
        have seen : t.eventAt (segmentKey header srcIp dstIp) call =
            some (.segment header payload now) := by
          rw [called]
          exact if_pos ⟨rfl, noReset⟩
        have absent := (connGet_connRemove { t with lastNow := now } (segmentKey header srcIp dstIp)
          (segmentKey header srcIp dstIp)).trans (if_pos rfl)
        exact .inr ⟨_, d, _, here, seen, kept, rfl, absent⟩
    · exact .inl ⟨queue, found, mem⟩

/-! ## Predicates on connections -/

/-- A predicate holds of every connection, in the map and in the backlogs. -/
structure AllConnections (P : TcpControlBlock → Prop) (t : TcpSocketTable) : Prop where
  mapped : ∀ key c, t.connGet key = some c → P c
  queued : ∀ (port : UInt16) (queue : ListenQueue) c, t.listeners[port]? = some queue →
    c ∈ queue.backlog → P c

theorem allConnections_new (P : TcpControlBlock → Prop) : AllConnections P new where
  mapped := by
    intro key c found
    rw [connGet, new, ExtTreeMap.getElem?_empty] at found
    cases found
  queued := by
    intro port queue c found
    rw [new, ExtTreeMap.getElem?_empty] at found
    cases found

/-- What holds of new connections and is kept by the events of a call is kept by the call. -/
theorem AllConnections.step {P : TcpControlBlock → Prop} (keyed : t.Keyed)
    (all : AllConnections P t)
    (opened : ∀ localAddr remoteAddr iss now, P (.opened localAddr remoteAddr iss now))
    (received : ∀ localAddr remoteAddr irs iss, P (.newSynReceived localAddr remoteAddr irs iss))
    (event : ∀ key c event c', t.connGet key = some c → t.eventAt key call = some event → P c →
      c.apply event = some c' → P c') : AllConnections P (t.step call).1 where
  mapped := by
    intro key c' found
    cases origin keyed found with
    | same found => exact all.mapped key c' found
    | event found seen kept => exact event key _ _ c' found seen (all.mapped key _ found) kept
    | opened => exact opened _ _ _ _
    | received => exact received _ _ _ _
    | accepted called listener backlog =>
      exact all.queued _ _ _ listener (backlog ▸ .head _)
  queued := by
    intro port queue c found mem
    rcases queued_step found mem with ⟨before, found, mem⟩ | ⟨key, d, e, here, seen, kept, -⟩
    · exact all.queued port before c found mem
    · exact event key d e c here seen (all.mapped key d here) kept

end TcpSocketTable

end NexaCore.Net
