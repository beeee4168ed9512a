import NexaCore.Net.Tcp.Proofs.Steps
import NexaCore.Misc.SequenceSpace
import NexaCore.Misc.Tiling

/-!
# The sending side of a connection

The part of a control block that `send` and the acknowledgements work on, with the positions that
its sequence numbers stand for: the SYN is at position 0, the bytes that `send` accepted follow.
`SendInv` relates the retransmit queue to them and is kept by every event.
-/

namespace NexaCore.Net

open Misc Std List Nat

/-! ## The view -/

structure SendSide where
  iss : Seq
  mss : Nat
  una : Seq
  nxt : Seq
  pieces : List (Seq × List UInt8)
  originals : List (Nat × Segment)
  accepted : List UInt8
  acked : Nat
  allowance : Nat

namespace SendSide

def acknowledge (s : SendSide) (ack : Seq) : SendSide :=
  { s with una := ack, acked := s.acked + (ack - s.una).toNat }

/-- The pieces that end after an acknowledged number stay. -/
def prune (s : SendSide) (ack : Seq) : SendSide :=
  { s with pieces := s.pieces.filter fun piece =>
      seqLt ack (piece.1 + BitVec.ofNat 32 piece.2.length) }

def push (s : SendSide) (data : List UInt8) (original : Segment) (allowance : Nat) : SendSide :=
  { s with
    nxt := s.nxt + BitVec.ofNat 32 data.length
    pieces := s.pieces ++ [(s.nxt, data)]
    originals := s.originals ++ [(1 + s.accepted.length, original)]
    accepted := s.accepted ++ data
    allowance }

/-- The position after the last byte. -/
def stop (s : SendSide) : Nat := 1 + s.accepted.length

def outstanding (s : SendSide) : Nat := s.stop - s.acked

end SendSide

namespace TcpControlBlock

def sendSide (c : TcpControlBlock) : SendSide where
  iss := c.iss
  mss := c.mss
  una := c.sndUna
  nxt := c.sndNxt
  pieces := c.pieces
  originals := c.originals
  accepted := c.accepted
  acked := c.acked
  allowance := c.allowance

/-- Data can be sent: `Established` or `CloseWait`. -/
def IsOpen (state : TcpState) : Prop := state = .established ∨ state = .closeWait

instance : DecidablePred IsOpen := fun state =>
  inferInstanceAs (Decidable (state = .established ∨ state = .closeWait))

inductive Follows : TcpState → TcpState → Prop
  | same (state : TcpState) : Follows state state
  | closeWait : Follows .established .closeWait
  | closing : Follows .finWait1 .closing
  | timeWait : Follows .finWait2 .timeWait
  | closed : Follows .closing .timeWait

inductive SendEffect (ack : Seq) (c c' : TcpControlBlock) : Prop
  | none (same : c'.sendSide = c.sendSide) (states : Follows c.state c'.state)
  | acked (state : c.state = .established) (state' : IsOpen c'.state)
      (new : seqLt c.sndUna ack = true) (sent : seqLe ack c.sndNxt = true)
      (side : c'.sendSide = (c.sendSide.acknowledge ack).prune ack)
  | connected (state : c.state = .synSent) (state' : c'.state = .established)
      (all : ack = c.sndNxt) (side : c'.sendSide = { c.sendSide.acknowledge ack with pieces := [] })
  | completed (state : c.state = .synReceived) (state' : c'.state = .established)
      (all : ack = c.sndNxt) (side : c'.sendSide = c.sendSide.acknowledge ack)
  | finished (state : c.state = .finWait1) (state' : c'.state = .finWait2 ∨ c'.state = .timeWait)
      (all : ack = c.sndNxt) (side : c'.sendSide = c.sendSide.acknowledge ack)

theorem pieces_acknowledged (c : TcpControlBlock) (header : TcpHeader) (cwnd : Nat) :
    (c.acknowledged header cwnd).pieces =
      c.pieces.filter fun piece =>
        seqLt header.ackNum (piece.1 + BitVec.ofNat 32 piece.2.length) := by
  rw [pieces, pieces, filter_map]
  rfl

theorem sendSide_receiveData (c : TcpControlBlock) (header : TcpHeader) (payload : List UInt8) :
    (c.receiveData header payload).1.sendSide = c.sendSide ∧
      (c.receiveData header payload).1.state = c.state := by
  unfold receiveData
  split <;> exact ⟨rfl, rfl⟩

variable {c : TcpControlBlock}

/-- In `Established` the sending side sees the acknowledgement only. -/
theorem sendEffect_established (state : c.state = .established) (header : TcpHeader)
    (payload : List UInt8) :
    SendEffect header.ackNum c (c.processEstablished header payload).1 := by
  obtain ⟨side, after⟩ : (c.processEstablished header payload).1.sendSide =
      (c.afterAck header).1.sendSide ∧
      ((c.processEstablished header payload).1.state = (c.afterAck header).1.state ∨
        (c.processEstablished header payload).1.state = .closeWait) := by
    obtain ⟨side, same⟩ := sendSide_receiveData (c.afterAck header).1 header payload
    rw [processEstablished_eq]
    dsimp only
    split
    · exact ⟨side, .inr rfl⟩
    · exact ⟨side, .inl same⟩
  have same : (c.afterAck header).1.state = .established := by
    rcases c.afterAck_cases header with ⟨_, _, _, eq⟩ | ⟨-, -, _, eq⟩ <;> rw [eq] <;> exact state
  rw [same] at after
  rcases c.afterAck_cases header with ⟨_, _, _, eq⟩ | ⟨new, sent, cwnd, eq⟩
  · rw [eq] at side
    refine .none side ?_
    rw [state]
    rcases after with open' | closed
    · rw [open']
      exact .same _
    · rw [closed]
      exact .closeWait
  · refine .acked state after new sent (side.trans ?_)
    rw [eq, sendSide, pieces_acknowledged]
    rfl

theorem sendEffect_finWait1 (state : c.state = .finWait1) (header : TcpHeader) (now : Nat) :
    SendEffect header.ackNum c (c.processFinWait1 header now).1 := by
  unfold processFinWait1
  dsimp only
  by_cases all : TcpFlags.Has header.flags TcpFlags.ack ∧ header.ackNum = c.sndNxt
  · rw [if_pos all]
    split
    · exact .finished state (.inr rfl) all.2 rfl
    · exact .finished state (.inl rfl) all.2 rfl
  · rw [if_neg all]
    split
    · rw [if_neg (by rw [state]; decide)]
      exact .none rfl (by rw [state]; exact .closing)
    · exact .none rfl (.same _)

variable {c' : TcpControlBlock} {now : Nat}

theorem sendEffect {header : TcpHeader} {payload : List UInt8}
    (after : AfterSegment header payload now c c') : SendEffect header.ackNum c c' := by
  cases after with
  | same => exact .none rfl (.same _)
  | connected state ack => exact .connected state rfl ack rfl
  | completed state ack => exact .completed state rfl ack rfl
  | established state => exact sendEffect_established state header payload
  | finWait1 state => exact sendEffect_finWait1 state header now
  | finWait2 state =>
    unfold processFinWait2
    split
    · exact .none rfl (by rw [state]; exact .timeWait)
    · exact .none rfl (.same _)
  | closing state =>
    unfold processClosing
    split
    · exact .none rfl (by rw [state]; exact .closed)
    · exact .none rfl (.same _)
  | timeWait state =>
    unfold processTimeWait
    split <;> exact .none rfl (.same _)

/-! ## The invariant -/

/-- The states after the acknowledgement of the FIN. -/
def Finished (state : TcpState) : Prop := state = .finWait2 ∨ state = .timeWait

instance : DecidablePred Finished := fun state =>
  inferInstanceAs (Decidable (state = .finWait2 ∨ state = .timeWait))

/-- Data was emitted by `send` at a position. -/
structure SentAt (s : SendSide) (tile : Nat × List UInt8) : Prop where
  short : tile.2.length ≤ defaultMss
  original : ∃ segment, (tile.1, segment) ∈ s.originals ∧ segment.seq = seqAt s.iss tile.1 ∧
    segment.payload = tile.2 ∧ segment.options = [] ∧ ¬TcpFlags.Has segment.flags TcpFlags.syn

/-- The tiles hold the stream from an acknowledged position on. -/
structure Stored (s : SendSide) (tiles : List (Nat × List UInt8)) (start : Nat) : Prop where
  low : 1 ≤ start
  high : start ≤ s.acked
  tiled : Tiled id start tiles s.stop
  bytes : contents tiles = s.accepted.drop (start - 1)

/-- The retransmit queue by positions. After the FIN was acknowledged it can hold acknowledged
pieces. -/
structure Queue (state : TcpState) (s : SendSide) (tiles : List (Nat × List UInt8)) : Prop where
  pieces : s.pieces = tiles.map fun tile => (seqAt s.iss tile.1, tile.2)
  unsent : state = .synReceived → tiles = []
  sent : ∀ tile ∈ tiles, SentAt s tile
  pending : ∀ tile ∈ tiles, s.acked < tile.1 + tile.2.length ∨ Finished state ∧ s.una = s.nxt
  stored : IsOpen state → s.outstanding < 2 ^ 32 → ∃ start, Stored s tiles start

/-- The sequence numbers and the retransmit queue of a connection, by positions. -/
structure SendInv (state : TcpState) (s : SendSide) : Prop where
  size : s.mss = defaultMss
  una : s.una = seqAt s.iss s.acked
  handshake : state = .synSent ∨ state = .synReceived →
    s.acked = 0 ∧ s.accepted = [] ∧ s.nxt = seqAt s.iss 1
  opened : IsOpen state → s.nxt = seqAt s.iss s.stop ∧ s.acked ≤ s.stop
  queue : state ≠ .synSent → ∃ tiles, Queue state s tiles

namespace SendInv

variable {state state' : TcpState} {s : SendSide} {ack : Seq}

section

variable (inv : SendInv state s)

include inv

theorem una_acknowledge (ack : Seq) :
    (s.acknowledge ack).una = seqAt s.iss (s.acknowledge ack).acked := by
  unfold SendSide.acknowledge
  dsimp only
  rw [inv.una, seqAt_toNat_sub]

theorem weaken (early : state ≠ .synSent) (late : state' ≠ .synSent ∧ state' ≠ .synReceived)
    (opens : IsOpen state' → IsOpen state) (finished : Finished state → Finished state') :
    SendInv state' s where
  size := inv.size
  una := inv.una
  handshake := fun hand => absurd hand (not_or.mpr late)
  opened := fun open' => inv.opened (opens open')
  queue := by
    intro _
    obtain ⟨tiles, queue⟩ := inv.queue early
    exact ⟨tiles, queue.pieces, fun received => absurd received late.2, queue.sent,
      fun tile mem => (queue.pending tile mem).imp_right (And.imp_left finished),
      fun open' => queue.stored (opens open')⟩

theorem follows (states : Follows state state') : SendInv state' s := by
  cases states with
  | same => exact inv
  | closeWait =>
    exact inv.weaken (by decide) (by decide) (fun _ => .inl rfl)
      (fun finished => absurd finished (by decide))
  | closing =>
    exact inv.weaken (by decide) (by decide) (fun open' => absurd open' (by decide))
      (fun finished => absurd finished (by decide))
  | timeWait | closed =>
    exact inv.weaken (by decide) (by decide) (fun open' => absurd open' (by decide))
      (fun _ => .inr rfl)

theorem acknowledge_handshake (hand : state = .synSent ∨ state = .synReceived) (all : ack = s.nxt) :
    (s.acknowledge ack).acked = 1 ∧ (s.acknowledge ack).stop = 1 := by
  obtain ⟨acked, accepted, nxt⟩ := inv.handshake hand
  have start : s.una = seqAt s.iss 0 := by rw [inv.una, acked]
  constructor
  · unfold SendSide.acknowledge
    dsimp only
    rw [acked, all, nxt, start, toNat_seqAt_sub _ (zero_le 1)]
    rfl
  · rw [SendSide.stop, SendSide.acknowledge, accepted]
    rfl

/-- An acknowledgement of everything that was sent, in the handshake. -/
theorem established (hand : state = .synSent ∨ state = .synReceived) (all : ack = s.nxt)
    (empty : s.pieces = []) : SendInv .established (s.acknowledge ack) := by
  obtain ⟨-, accepted, nxt⟩ := inv.handshake hand
  obtain ⟨one, stop⟩ := inv.acknowledge_handshake hand all
  refine ⟨inv.size, inv.una_acknowledge ack, fun hand => ?_, fun _ => ⟨?_, ?_⟩, fun _ => ⟨[], ?_⟩⟩
  · exact absurd hand (by decide)
  · rw [stop]
    exact nxt
  · rw [one, stop]
  · refine ⟨empty, fun _ => rfl, forall_mem_nil _, forall_mem_nil _,
      fun _ _ => ⟨1, le_rfl, one.ge, stop.symm, ?_⟩⟩
    exact (congrArg (drop 0) accepted).symm

end

theorem later (inv : SendInv state s) (early : state ≠ .synSent)
    (late : state' ≠ .synSent ∧ state' ≠ .synReceived ∧ ¬IsOpen state') {una nxt : Seq}
    {acked : Nat}
    (mark : una = seqAt s.iss acked)
    (pending : ∀ tiles, Queue state s tiles → ∀ tile ∈ tiles,
      acked < tile.1 + tile.2.length ∨ Finished state' ∧ una = nxt) :
    SendInv state' { s with una, nxt, acked } := by
  obtain ⟨tiles, queue⟩ := inv.queue early
  refine ⟨inv.size, mark, fun hand => ?_, fun open' => ?_, fun _ => ⟨tiles, ?_⟩⟩
  · exact absurd hand (not_or.mpr ⟨late.1, late.2.1⟩)
  · exact absurd open' late.2.2
  · exact ⟨queue.pieces, fun received => absurd received late.2.1,
      fun tile mem => ⟨(queue.sent tile mem).short, (queue.sent tile mem).original⟩,
      pending tiles queue, fun open' => absurd open' late.2.2⟩

theorem finished (inv : SendInv .finWait1 s) (done : Finished state') (all : ack = s.nxt) :
    SendInv state' (s.acknowledge ack) := by
  refine inv.later (by decide) ?_ (inv.una_acknowledge ack) fun _ _ _ _ => .inr ⟨done, all⟩
  rcases done with rfl | rfl <;> decide

theorem close (inv : SendInv state s) (opened : IsOpen state)
    (closed : state' = .finWait1 ∨ state' = .lastAck) (nxt : Seq) :
    SendInv state' { s with nxt } := by
  have early : state ≠ .synSent ∧ ¬Finished state := by
    rcases opened with rfl | rfl <;> decide
  refine inv.later early.1 ?_ inv.una fun tiles queue tile mem => ?_
  · rcases closed with rfl | rfl <;> decide
  · exact (queue.pending tile mem).imp_right fun done => absurd done.1 early.2

theorem push (inv : SendInv state s) (opened : IsOpen state) {data : List UInt8}
    {original : Segment} (allowance : Nat) (nonempty : data ≠ []) (short : data.length ≤ defaultMss)
    (seq : original.seq = s.nxt) (payload : original.payload = data)
    (options : original.options = []) (flags : ¬TcpFlags.Has original.flags TcpFlags.syn) :
    SendInv state (s.push data original allowance) := by
  obtain ⟨nxt, within⟩ := inv.opened opened
  have early : state ≠ .synSent ∧ state ≠ .synReceived ∧ ¬Finished state := by
    rcases opened with rfl | rfl <;> decide
  obtain ⟨tiles, queue⟩ := inv.queue early.1
  have stop : (s.push data original allowance).stop = s.stop + data.length := by
    rw [SendSide.stop, SendSide.stop, SendSide.push, length_append, add_assoc]
  have positive : 0 < data.length := length_pos_iff.mpr nonempty
  refine ⟨inv.size, inv.una, fun hand => ?_, fun _ => ⟨?_, ?_⟩,
    fun _ => ⟨tiles ++ [(s.stop, data)], ?_⟩⟩
  · exact absurd hand (not_or.mpr ⟨early.1, early.2.1⟩)
  · rw [stop, ← seqAt_add, SendSide.push, nxt]
  · rw [stop]
    exact within.trans (le_add_right _ _)
  · refine ⟨?_, fun received => absurd received early.2.1, fun tile mem => ?_, fun tile mem => ?_,
      fun _ few => ?_⟩
    · change s.pieces ++ [(s.nxt, data)] = _
      rw [map_append, queue.pieces, nxt]
      rfl
    · rcases mem_append.mp mem with old | last
      · obtain ⟨short, segment, mem, same⟩ := queue.sent tile old
        exact ⟨short, segment, mem_append_left _ mem, same⟩
      · obtain rfl := mem_singleton.mp last
        exact ⟨short, original, mem_append_right _ (mem_singleton.mpr rfl),
          seq.trans nxt, payload, options, flags⟩
    · rcases mem_append.mp mem with old | last
      · rcases queue.pending tile old with ahead | done
        · exact .inl ahead
        · exact absurd done.1 early.2.2
      · obtain rfl := mem_singleton.mp last
        exact .inl (by change s.acked < s.stop + data.length; omega)
    · have before : s.outstanding < 2 ^ 32 := by
        rw [SendSide.outstanding, stop] at few
        rw [SendSide.outstanding]
        change s.stop + data.length - s.acked < 2 ^ 32 at few
        omega
      obtain ⟨start, stored⟩ := queue.stored opened before
      refine ⟨start, stored.low, stored.high, ?_, ?_⟩
      · rw [stop]
        exact stored.tiled.append ⟨rfl, nonempty, rfl⟩
      · have inside : start - 1 ≤ s.accepted.length := by
          have high := stored.tiled.start_le
          rw [SendSide.stop] at high
          omega
        change contents (tiles ++ [(s.stop, data)]) = (s.accepted ++ data).drop (start - 1)
        rw [drop_append_of_le_length inside, ← stored.bytes]
        simp [contents]

theorem seqLt_iff (a b : Seq) : seqLt a b = true ↔ seqBefore a b := by
  unfold seqLt seqBefore
  rw [Bool.and_eq_true, decide_eq_true_eq, decide_eq_true_eq, and_comm]
  rfl

/-- A new acknowledgement reaches a position up to the last one that was sent. -/
theorem acknowledge_between (inv : SendInv state s) (opened : IsOpen state)
    (new : seqLt s.una ack = true) (sent : seqLe ack s.nxt = true) :
    (ack - s.una).toNat < 2 ^ 31 ∧ (s.acknowledge ack).acked ≤ s.stop ∧
      (s.stop - (s.acknowledge ack).acked) % 2 ^ 32 < 2 ^ 31 := by
  obtain ⟨nxt, within⟩ := inv.opened opened
  rw [seqLt_iff] at new
  rw [seqLe, Bool.or_eq_true, beq_iff_eq, seqLt_iff, nxt] at sent
  have short : (ack - s.una).toNat < 2 ^ 31 := new.2
  refine ⟨short, ?_⟩
  rw [inv.una] at short
  unfold SendSide.acknowledge
  dsimp only
  rw [inv.una]
  exact seqAt_between (by decide) within short sent

theorem acked (inv : SendInv state s) (opened : IsOpen state) (opened' : IsOpen state')
    (new : seqLt s.una ack = true) (sent : seqLe ack s.nxt = true) :
    SendInv state' ((s.acknowledge ack).prune ack) := by
  obtain ⟨step, reached, left⟩ := inv.acknowledge_between opened new sent
  have early : state ≠ .synSent ∧ ¬Finished state := by
    rcases opened with rfl | rfl <;> decide
  have late : state' ≠ .synSent ∧ state' ≠ .synReceived := by
    rcases opened' with rfl | rfl <;> decide
  have una := inv.una_acknowledge ack
  have moved : (s.acknowledge ack).acked = s.acked + (ack - s.una).toNat := rfl
  have mark : ack = seqAt s.iss (s.acknowledge ack).acked := una
  obtain ⟨tiles, queue⟩ := inv.queue early.1
  have ahead : ∀ tile ∈ tiles, s.acked < tile.1 + tile.2.length := by
    intro tile mem
    rcases queue.pending tile mem with ahead | done
    · exact ahead
    · exact absurd done.1 early.2
  -- The numbers say which tiles end after the acknowledged position, unless they are far ahead.
  have covered : ∀ tile ∈ tiles, tile.1 + tile.2.length ≤ (s.acknowledge ack).acked →
      ¬seqLt ack (seqAt s.iss tile.1 + BitVec.ofNat 32 tile.2.length) = true := by
    intro tile mem ends
    have before := ahead tile mem
    rw [seqLt_iff, seqAt_add, mark]
    exact not_seqBefore_seqAt (by decide) ends (by change _ < 2 ^ 31; omega)
  let keep : Nat × List UInt8 → Bool := fun tile =>
    seqLt ack (seqAt s.iss tile.1 + BitVec.ofNat 32 tile.2.length)
  refine ⟨inv.size, una, fun hand => ?_, fun _ => ⟨(inv.opened opened).1, reached⟩,
    fun _ => ⟨tiles.filter keep, ?_⟩⟩
  · exact absurd hand (not_or.mpr late)
  · refine ⟨?_, fun received => absurd received late.2, fun tile mem => ?_, fun tile mem => ?_,
      fun _ few => ?_⟩
    · change s.pieces.filter _ = _
      rw [queue.pieces, filter_map]
      rfl
    · obtain ⟨short, original⟩ := queue.sent tile (mem_of_mem_filter mem)
      exact ⟨short, original⟩
    · obtain ⟨mem, kept⟩ := List.mem_filter.mp mem
      refine .inl (Nat.lt_of_not_le fun ends => ?_)
      exact covered tile mem ends kept
    · change s.stop - (s.acknowledge ack).acked < 2 ^ 32 at few
      have before : s.outstanding < 2 ^ 32 := by
        rw [Nat.mod_eq_of_lt few] at left
        rw [SendSide.outstanding]
        omega
      obtain ⟨start, stored⟩ := queue.stored opened before
      have near : ∀ pos data, (id pos, data) ∈ tiles → start ≤ pos → pos + data.length ≤ s.stop →
          (keep (id pos, data) = true ↔ (s.acknowledge ack).acked < pos + data.length) := by
        intro pos data mem _ high
        refine ⟨fun kept => Nat.lt_of_not_le fun ends => covered _ mem ends kept, fun ahead => ?_⟩
        change seqLt ack (seqAt s.iss pos + BitVec.ofNat 32 data.length) = true
        rw [seqLt_iff, seqAt_add, mark]
        rw [Nat.mod_eq_of_lt few] at left
        exact seqBefore_seqAt (by decide) ahead (by change _ < 2 ^ 31; omega)
      obtain ⟨start', low, high, tiled, bytes⟩ :=
        stored.tiled.filter (stored.high.trans (Nat.le_add_right _ _)) near
      refine ⟨start', stored.low.trans low, high, tiled, ?_⟩
      have shift : start' - 1 = start - 1 + (start' - start) := by
        have one := stored.low
        omega
      change _ = s.accepted.drop (start' - 1)
      rw [bytes, stored.bytes, shift, drop_drop]

end SendInv

/-- The difference of the sequence numbers is the number of unacknowledged bytes. -/
theorem SendInv.toNat_sub (inv : SendInv c.state c.sendSide) (opened : IsOpen c.state)
    (less : c.sendSide.outstanding < 2 ^ 32) :
    (c.sndNxt - c.sndUna).toNat = c.sendSide.outstanding := by
  obtain ⟨nxt, within⟩ := inv.opened opened
  have una : c.sndUna = seqAt c.iss c.acked := inv.una
  have nxt' : c.sndNxt = seqAt c.iss c.sendSide.stop := nxt
  have within' : c.acked ≤ c.sendSide.stop := within
  rw [una, nxt', toNat_seqAt_sub _ within']
  exact mod_eq_of_lt less

/-! ## Sending -/

/-- The chunks are the data in pieces of at most `size` bytes. -/
theorem chunks_spec (size : Nat) (positive : 0 < size) {fuel : Nat} {data : List UInt8}
    (enough : data.length ≤ fuel) :
    (chunks size fuel data).flatten = data ∧
      ∀ chunk ∈ chunks size fuel data, chunk ≠ [] ∧ chunk.length ≤ size := by
  induction fuel generalizing data with
  | zero =>
    obtain rfl := eq_nil_of_length_eq_zero (le_zero.mp enough)
    exact ⟨rfl, forall_mem_nil _⟩
  | succ fuel ih =>
    cases data with
    | nil => exact ⟨rfl, forall_mem_nil _⟩
    | cons byte rest =>
      have shorter : ((byte :: rest).drop size).length ≤ fuel := by
        rw [length_drop]
        omega
      obtain ⟨whole, small⟩ := ih shorter
      rw [chunks]
      refine ⟨?_, fun chunk mem => ?_⟩
      · rw [flatten_cons, whole, take_append_drop]
      · rcases mem_cons.mp mem with rfl | later
        · refine ⟨fun empty => ?_, length_take_le _ _⟩
          rcases take_eq_nil_iff.mp empty with zero | nil
          · omega
          · cases nil
        · exact small chunk later

theorem options_segment (c : TcpControlBlock) (seq ack : Seq) (flags : UInt8) (window : UInt16)
    (payload : List UInt8) : (c.segment seq ack flags window payload).options = [] := by
  simp [segment, buildTcpSegment, buildTcpSegmentWithOptions]

theorem state_sendChunks (now : Nat) (data : List (List UInt8)) (c : TcpControlBlock) :
    (sendChunks now data c).1.state = c.state := by
  obtain ⟨_, _, _, _, _, eq⟩ := sendChunks_eq now data c
  rw [eq]

theorem SendInv.sendChunks {data : List (List UInt8)} (inv : SendInv c.state c.sendSide)
    (opened : IsOpen c.state) (small : ∀ chunk ∈ data, chunk ≠ [] ∧ chunk.length ≤ defaultMss) :
    SendInv c.state (sendChunks now data c).1.sendSide := by
  induction data generalizing c with
  | nil => exact inv
  | cons chunk rest ih =>
    obtain ⟨⟨nonempty, short⟩, small⟩ := forall_mem_cons.mp small
    have pushed : SendInv c.state (c.sendChunk now chunk).sendSide := by
      rw [sendSide, pieces, sendChunk, map_append]
      have flags : ¬TcpFlags.Has (TcpFlags.ack ||| TcpFlags.psh) TcpFlags.syn := by decide
      exact inv.push opened c.sendAllowance nonempty short rfl rfl
        (c.options_segment _ _ _ _ _) flags
    exact ih (c := c.sendChunk now chunk) pushed opened small

theorem history_sendChunks (now : Nat) (data : List (List UInt8)) (c : TcpControlBlock) :
    (sendChunks now data c).1.accepted = c.accepted ++ data.flatten ∧
    (sendChunks now data c).1.acked = c.acked ∧
    (sendChunks now data c).1.allowance = if data = [] then c.allowance else c.sendAllowance := by
  induction data generalizing c with
  | nil => exact ⟨(append_nil _).symm, rfl, rfl⟩
  | cons chunk rest ih =>
    obtain ⟨accepted, acked, allowance⟩ := ih (c.sendChunk now chunk)
    refine ⟨?_, acked, ?_⟩
    · rw [flatten_cons, ← append_assoc]
      exact accepted
    · rw [if_neg (cons_ne_nil _ _)]
      refine allowance.trans ?_
      split <;> rfl

theorem send_of_isOpen (opened : IsOpen c.state) (now : Nat) (data : List UInt8) :
    (c.send now data).2.1 = (sendChunks now (chunks (max c.mss 1) data.length data) c).1 := by
  have cond : c.state = .established ∨ c.state = .closeWait := opened
  rw [send, if_pos cond]

theorem send_of_not_isOpen (closed : ¬IsOpen c.state) (now : Nat) (data : List UInt8) :
    (c.send now data).2.1 = c := by
  have cond : ¬(c.state = .established ∨ c.state = .closeWait) := closed
  rw [send, if_neg cond]

theorem SendInv.send (inv : SendInv c.state c.sendSide) (now : Nat) (data : List UInt8) :
    SendInv (c.send now data).2.1.state (c.send now data).2.1.sendSide := by
  by_cases opened : IsOpen c.state
  · have size : max c.mss 1 = defaultMss := by
      have mss : c.mss = defaultMss := inv.size
      rw [mss]
      decide
    obtain ⟨-, small⟩ := chunks_spec (max c.mss 1) (by omega) (Nat.le_refl data.length)
    rw [send_of_isOpen opened, state_sendChunks, size]
    rw [size] at small
    exact inv.sendChunks opened small
  · rw [send_of_not_isOpen opened]
    exact inv

theorem SendInv.closeCall (inv : SendInv c.state c.sendSide) :
    SendInv c.close.1.state c.close.1.sendSide := by
  unfold TcpControlBlock.close
  split
  · rename_i state
    exact inv.close (.inl state) (.inl rfl) (c.sndNxt + 1)
  · rename_i state
    exact inv.close (.inr state) (.inr rfl) (c.sndNxt + 1)
  · exact inv

theorem SendInv.segment {ack : Seq} (inv : SendInv c.state c.sendSide)
    (effect : SendEffect ack c c') : SendInv c'.state c'.sendSide := by
  cases effect with
  | none same states =>
    rw [same]
    exact inv.follows states
  | acked state state' new sent side =>
    rw [side]
    exact inv.acked (.inl state) state' new sent
  | connected state state' all side =>
    have bare : SendInv c.state { c.sendSide with pieces := [] } :=
      ⟨inv.size, inv.una, inv.handshake, inv.opened, fun late => absurd state late⟩
    rw [side, state']
    exact bare.established (.inl state) all rfl
  | completed state state' all side =>
    obtain ⟨tiles, queue⟩ := inv.queue (by rw [state]; decide)
    have empty : c.sendSide.pieces = [] := by
      rw [queue.pieces, queue.unsent state]
      rfl
    rw [side, state']
    exact inv.established (.inr state) all empty
  | finished state state' all side =>
    rw [side]
    rw [state] at inv
    exact inv.finished state' all

theorem sendSide_tickConnection (kept : (c.tickConnection now).1 = some c') :
    c'.sendSide = c.sendSide ∧ c'.state = c.state := by
  obtain ⟨pieces, _, _, _, _, rfl⟩ := tickConnection_eq_some kept
  refine ⟨?_, rfl⟩
  rw [sendSide, pieces]
  rfl

theorem SendInv.apply {event : Event} (inv : SendInv c.state c.sendSide)
    (kept : c.apply event = some c') : SendInv c'.state c'.sendSide := by
  cases event with
  | send now data =>
    cases kept
    exact inv.send now data
  | recv room =>
    cases kept
    exact inv
  | close =>
    cases kept
    exact inv.closeCall
  | segment header payload now => exact inv.segment (sendEffect (afterSegment kept))
  | tick now =>
    obtain ⟨side, state⟩ := sendSide_tickConnection kept
    rw [side, state]
    exact inv

theorem sendInv_opened (localAddr remoteAddr : SocketApiAddr) (iss : Seq) (now : Nat) :
    SendInv .synSent (opened localAddr remoteAddr iss now).sendSide where
  size := rfl
  una := (seqAt_zero iss).symm
  handshake := fun _ => ⟨rfl, rfl, rfl⟩
  opened := fun open' => absurd open' (by decide)
  queue := fun late => absurd rfl late

theorem sendInv_newSynReceived (localAddr remoteAddr : SocketApiAddr) (irs iss : Seq) :
    SendInv .synReceived (newSynReceived localAddr remoteAddr irs iss).sendSide where
  size := rfl
  una := (seqAt_zero iss).symm
  handshake := fun _ => ⟨rfl, rfl, rfl⟩
  opened := fun open' => absurd open' (by decide)
  queue := fun _ => ⟨[], rfl, fun _ => rfl, forall_mem_nil _, forall_mem_nil _,
    fun open' => absurd open' (by decide)⟩

end TcpControlBlock

namespace TcpSocketTable

/-- The system of a table: every call is taken. -/
def system : Lts TcpSocketTable Call := fun t call t' => t' = (t.step call).1

def runCalls (t : TcpSocketTable) (calls : List Call) : TcpSocketTable :=
  calls.foldl (fun t call => (t.step call).1) t

theorem run_runCalls (t : TcpSocketTable) (calls : List Call) :
    Run system t calls (t.runCalls calls) := by
  induction calls generalizing t with
  | nil => exact .nil t
  | cons call rest ih => exact Run.cons rfl (ih (t.step call).1)

def client : SocketApiAddr := ⟨#v[10, 0, 0, 1], 5000⟩

def server : SocketApiAddr := ⟨#v[10, 0, 0, 2], 80⟩

/-- An active open from `client` to `server` that the peer answers. -/
def opening : List Call :=
  [.connect client server,
    .handleSegment ⟨80, 5000, 100, 0x01000002, 0x6012, 1000⟩ [] server.ip client.ip 5]

/-- The connections of a table are found under their keys, and their sending sides are in order. -/
structure SendsInOrder (t : TcpSocketTable) : Prop where
  keyed : t.Keyed
  connections : AllConnections (fun c => TcpControlBlock.SendInv c.state c.sendSide) t

theorem sendsInOrder_new : SendsInOrder new where
  keyed := by
    intro encoded c found
    rw [new, ExtTreeMap.getElem?_empty] at found
    cases found
  connections := allConnections_new _

variable {t : TcpSocketTable}

theorem SendsInOrder.step (order : t.SendsInOrder) (call : Call) :
    (t.step call).1.SendsInOrder where
  keyed := order.keyed.step call
  connections := order.connections.step order.keyed TcpControlBlock.sendInv_opened
    TcpControlBlock.sendInv_newSynReceived fun _ _ _ _ _ _ inv kept => inv.apply kept

theorem SendsInOrder.run {calls : List Call} (run : Run system new calls t) : t.SendsInOrder := by
  refine Run.invariant SendsInOrder (fun s call s' order taken => ?_) run sendsInOrder_new
  rw [taken]
  exact order.step call

end TcpSocketTable

end NexaCore.Net
