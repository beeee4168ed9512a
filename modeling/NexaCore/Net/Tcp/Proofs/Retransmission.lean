import NexaCore.Net.Tcp.Proofs.SendSide

/-!
# Retransmissions

What the timer and fast retransmit emit comes from the retransmit queue. An entry that `send`
queued repeats its segment and covers an unacknowledged byte. Two kinds do not: the entry that
`connect` queues holds the whole packet of the SYN, which the timer sends as data, and those left
when the FIN is acknowledged are acknowledged too.
-/

namespace NexaCore.Net

open Misc List TcpFlags

namespace TcpControlBlock

variable {c : TcpControlBlock} {header : TcpHeader} {payload : List UInt8} {now : Nat}
  {output : TcpOutput} {s : Segment} {ip : Ipv4Addr}

def retransmission (c : TcpControlBlock) (piece : Seq × List UInt8) : Segment :=
  c.segment piece.1 c.rcvNxt (TcpFlags.ack ||| psh) c.rcvWnd piece.2

/-! ## What is emitted -/

theorem mem_resendExpired {entries : List RetransmitEntry}
    (mem : output ∈ (resendExpired now entries c).2) :
    (∃ piece ∈ c.pieces, output = .sendSegment (c.retransmission piece) c.remoteAddr.ip) ∨
      output = c.emit c.sndNxt c.rcvNxt rst 0 [] ∨ output = .connectionClosed c.key := by
  induction entries generalizing c with
  | nil => cases mem
  | cons entry rest ih =>
    rw [resendExpired] at mem
    split at mem
    · exact ih mem
    · rename_i queued found
      split at mem
      · right
        simpa using mem
      · rcases mem_cons.mp mem with first | later
        · left
          refine ⟨(queued.seq, queued.data), ?_, first⟩
          exact mem_map.mpr ⟨queued, mem_of_find?_eq_some found, rfl⟩
        · have rest := ih (c := c.resend entry.seq now) later
          rw [pieces_resend] at rest
          exact rest

theorem mem_tickConnection (mem : .sendSegment s ip ∈ (c.tickConnection now).2)
    (noReset : ¬TcpFlags.Has s.flags rst) :
    c.expired now ≠ [] ∧ ∃ piece ∈ c.pieces, s = c.retransmission piece := by
  unfold tickConnection at mem
  split at mem
  · simp at mem
  · constructor
    · intro none
      rw [none] at mem
      cases mem
    · rcases mem_resendExpired mem with ⟨piece, queued, same⟩ | reset | closed
      · exact ⟨piece, queued, (TcpOutput.sendSegment.inj same).1⟩
      · rw [(TcpOutput.sendSegment.inj reset).1] at noReset
        exact absurd (by decide : TcpFlags.Has rst rst) noReset
      · cases closed

theorem mem_processAck (mem : output ∈ (c.processAck header).2) :
    ∃ piece ∈ c.pieces, output = .sendSegment (c.retransmission piece) c.remoteAddr.ip := by
  unfold processAck at mem
  dsimp only at mem
  split at mem
  · split at mem
    · obtain ⟨entry, first, same⟩ := mem_map.mp mem
      refine ⟨(entry.seq, entry.data), ?_, same.symm⟩
      exact mem_map.mpr ⟨entry, mem_of_mem_take first, rfl⟩
    · cases mem
  · split at mem <;> cases mem

/-- An output that is no segment with the PSH flag. -/
def NoPush : TcpOutput → Prop
  | .sendSegment s _ => ¬TcpFlags.Has s.flags psh
  | _ => True

theorem noPush_emitAck (c : TcpControlBlock) : NoPush c.emitAck := by
  have flags : ¬TcpFlags.Has TcpFlags.ack psh := by decide
  exact flags

theorem noPush_receiveData (c : TcpControlBlock) (header : TcpHeader) (payload : List UInt8) :
    ∀ output ∈ (c.receiveData header payload).2, NoPush output := by
  unfold receiveData
  split
  · intro output mem
    rcases mem_cons.mp mem with rfl | later
    · exact noPush_emitAck _
    · obtain rfl := mem_singleton.mp later
      trivial
  · intro output mem
    cases mem

theorem noPush_singleton (c : TcpControlBlock) : ∀ output ∈ [c.emitAck], NoPush output := by
  intro output mem
  obtain rfl := mem_singleton.mp mem
  exact noPush_emitAck c

theorem mem_processEstablished (mem : output ∈ (c.processEstablished header payload).2) :
    NoPush output ∨ output ∈ (c.processAck header).2 := by
  have data := noPush_receiveData (c.afterAck header).1 header payload
  have ack : ∀ output ∈ (c.afterAck header).2, output ∈ (c.processAck header).2 := by
    unfold afterAck
    split
    · exact fun _ => id
    · simp
  rw [processEstablished_eq] at mem
  dsimp only at mem
  split at mem
  · rcases mem_append.mp mem with front | last
    · rcases mem_append.mp front with early | received
      · exact .inr (ack output early)
      · exact .inl (data output received)
    · exact .inl (noPush_singleton _ output last)
  · rcases mem_append.mp mem with early | received
    · exact .inr (ack output early)
    · exact .inl (data output received)

theorem noPush_processSynSent (c : TcpControlBlock) (header : TcpHeader) :
    ∀ output ∈ (c.processSynSent header).2, NoPush output := by
  have reset : ¬TcpFlags.Has rst psh := by decide
  unfold processSynSent
  split
  · split
    · intro output mem
      obtain rfl := mem_singleton.mp mem
      exact reset
    · intro output mem
      rcases mem_cons.mp mem with rfl | later
      · exact noPush_emitAck _
      · obtain rfl := mem_singleton.mp later
        trivial
  · split
    · intro output mem
      obtain rfl := mem_singleton.mp mem
      trivial
    · intro output mem
      cases mem

theorem noPush_processFinWait1 (c : TcpControlBlock) (header : TcpHeader) (now : Nat) :
    ∀ output ∈ (c.processFinWait1 header now).2, NoPush output := by
  unfold processFinWait1
  dsimp only
  generalize (if TcpFlags.Has header.flags TcpFlags.ack ∧ header.ackNum = c.sndNxt then
    { c.advance header.ackNum with state := .finWait2 } else c) = d
  split
  · split <;> exact noPush_singleton _
  · intro output mem
    cases mem

/-- A segment is answered with the PSH flag in `Established` only, by fast retransmit. -/
theorem mem_processSegment (mem : output ∈ (c.processSegment header payload now).2) :
    NoPush output ∨ c.state = .established ∧ output ∈ (c.processAck header).2 := by
  unfold processSegment at mem
  split at mem
  · exact .inl (c.noPush_processSynSent header output mem)
  · left
    unfold processSynReceived at mem
    split at mem
    · obtain rfl := mem_singleton.mp mem
      trivial
    · cases mem
  · rename_i state
    exact (mem_processEstablished mem).imp_right fun ack => ⟨state, ack⟩
  · exact .inl (c.noPush_processFinWait1 header now output mem)
  · left
    change output ∈ (c.processFinWait2 header now).2 at mem
    unfold processFinWait2 at mem
    split at mem
    · exact noPush_singleton _ output mem
    · cases mem
  · cases mem
  · split at mem
    · obtain rfl := mem_singleton.mp mem
      exact .inl trivial
    · cases mem
  · left
    change output ∈ (c.processTimeWait header now).2 at mem
    unfold processTimeWait at mem
    split at mem
    · exact noPush_singleton _ output mem
    · cases mem
  all_goals cases mem

/-! ## What is repeated -/

/-- The number of sequence numbers that a segment covers, a FIN apart. -/
def span (s : Segment) : Nat :=
  s.payload.length + if TcpFlags.Has s.flags syn then 1 else 0

/-- A segment repeats one that `connect` or `send` emitted on a connection, and covers a sequence
number that is not acknowledged. -/
structure Repeats (c : TcpControlBlock) (s : Segment) (pos : Nat) (original : Segment) : Prop where
  earlier : (pos, original) ∈ c.originals
  seq : s.seq = original.seq
  syn : TcpFlags.Has s.flags syn ↔ TcpFlags.Has original.flags syn
  options : s.options = original.options
  payload : s.payload = original.payload
  place : s.seq = seqAt c.iss pos
  una : c.sndUna = seqAt c.iss c.acked
  unacknowledged : c.acked < pos + span s

theorem repeats_of_queued (inv : SendInv c.state c.sendSide) (late : c.state ≠ .synSent)
    (left : ¬Finished c.state ∨ c.sndUna ≠ c.sndNxt) {piece : Seq × List UInt8}
    (queued : piece ∈ c.pieces) :
    ∃ (pos : Nat) (original : Segment), Repeats c (c.retransmission piece) pos original := by
  obtain ⟨tiles, queue⟩ := inv.queue late
  have mem : piece ∈ c.sendSide.pieces := queued
  rw [queue.pieces] at mem
  obtain ⟨tile, held, rfl⟩ := mem_map.mp mem
  obtain ⟨-, original, earlier, seq, payload, options, flags⟩ := queue.sent tile held
  have plain : ¬TcpFlags.Has (TcpFlags.ack ||| psh) syn := by decide
  refine ⟨tile.1, original, earlier, seq.symm, iff_of_false plain flags, ?_, payload.symm, rfl,
    inv.una, ?_⟩
  · rw [options]
    exact c.options_segment _ _ _ _ _
  · rcases queue.pending tile held with ahead | ⟨done, all⟩
    · exact ahead.trans_le (Nat.add_le_add_left (Nat.le_add_right _ _) _)
    · rcases left with open' | apart
      · exact absurd done open'
      · exact absurd all apart

end TcpControlBlock

namespace TcpSocketTable

open TcpControlBlock

variable {t : TcpSocketTable} {calls : List Call} {s : Segment} {ip : Ipv4Addr}

theorem noPush_refusal (header : TcpHeader) (srcIp dstIp : Ipv4Addr) :
    NoPush (refusal header srcIp dstIp) := by
  have reset : ¬TcpFlags.Has rst psh := by decide
  have resetAck : ¬TcpFlags.Has (rst ||| TcpFlags.ack) psh := by decide
  unfold refusal
  split
  · exact reset
  · exact resetAck

theorem noPush_openPassive (t : TcpSocketTable) (queue : ListenQueue) (header : TcpHeader)
    (srcIp dstIp : Ipv4Addr) :
    ∀ output ∈ (t.openPassive queue header srcIp dstIp).2, NoPush output := by
  have reset : ¬TcpFlags.Has (rst ||| TcpFlags.ack) psh := by decide
  have synAck : ¬TcpFlags.Has (syn ||| TcpFlags.ack) psh := by decide
  unfold openPassive
  split
  · intro output mem
    obtain rfl := mem_singleton.mp mem
    exact reset
  · intro output mem
    obtain rfl := mem_singleton.mp mem
    exact synAck

theorem mem_handleSegment {header : TcpHeader} {payload : List UInt8} {srcIp dstIp : Ipv4Addr}
    {now : Nat} {output : TcpOutput}
    (mem : output ∈ (t.handleSegment header payload srcIp dstIp now).2) :
    NoPush output ∨ ∃ c, t.connGet (segmentKey header srcIp dstIp) = some c ∧
      c.state = .established ∧ output ∈ (c.processAck header).2 := by
  unfold handleSegment at mem
  dsimp only at mem
  split at mem
  · left
    split at mem
    · obtain rfl := mem_singleton.mp mem
      trivial
    · cases mem
  · split at mem
    · rename_i c found
      exact (mem_processSegment mem).imp_right fun established => ⟨c, found, established⟩
    · left
      split at mem
      · split at mem
        · exact noPush_openPassive _ _ _ _ _ output mem
        · obtain rfl := mem_singleton.mp mem
          exact noPush_refusal header srcIp dstIp
      · obtain rfl := mem_singleton.mp mem
        exact noPush_refusal header srcIp dstIp

/-- A segment that a call emits is a retransmission: the timer emits nothing else than resets,
and of the segments that answer a segment only those of fast retransmit have the PSH flag. -/
def Retransmits (s : Segment) : Call → Prop
  | .tick _ => ¬TcpFlags.Has s.flags rst
  | .handleSegment _ _ _ _ _ => TcpFlags.Has s.flags psh
  | _ => False

/-- No timeout has passed on a connection that waits for the SYN+ACK, or on one where everything
is acknowledged. -/
def Unexpired (t : TcpSocketTable) : Call → Prop
  | .tick now => ∀ key c, t.connGet key = some c →
      c.state = .synSent ∨ c.sndUna = c.sndNxt → c.expired now = []
  | _ => True

/-- In every reachable table, a retransmission repeats an earlier segment of its connection and
covers an unacknowledged sequence number, if the timer finds no entry of a SYN and no entry
that is acknowledged. -/
theorem retransmission_faithful (run : Run system new calls t) {call : Call}
    (unexpired : t.Unexpired call) (emitted : .sendSegment s ip ∈ (t.step call).2)
    (retransmits : Retransmits s call) :
    ∃ (key : TcpConnectionKey) (c : TcpControlBlock) (pos : Nat) (original : Segment),
      t.connGet key = some c ∧ c.key = (⟨s.srcIp, s.srcPort⟩, ⟨s.dstIp, s.dstPort⟩) ∧
      Repeats c s pos original := by
  have order := SendsInOrder.run run
  cases call with
  | tick now =>
    obtain ⟨key, c, found, mem⟩ := (tick_spec order.keyed now).2.2 _ emitted
    obtain ⟨some', piece, queued, rfl⟩ := mem_tickConnection mem retransmits
    have inv := order.connections.mapped key c found
    have late : c.state ≠ .synSent := fun state => some' (unexpired key c found (.inl state))
    have left : c.sndUna ≠ c.sndNxt := fun all => some' (unexpired key c found (.inr all))
    obtain ⟨pos, original, repeats⟩ := repeats_of_queued inv late (.inr left) queued
    exact ⟨key, c, pos, original, found, rfl, repeats⟩
  | handleSegment header payload srcIp dstIp now =>
    rcases mem_handleSegment emitted with plain | ⟨c, found, state, mem⟩
    · exact absurd retransmits plain
    · obtain ⟨piece, queued, same⟩ := mem_processAck mem
      obtain ⟨rfl, -⟩ := TcpOutput.sendSegment.inj same
      have inv := order.connections.mapped _ c found
      have late : c.state ≠ .synSent ∧ ¬Finished c.state := by
        rw [state]
        decide
      obtain ⟨pos, original, repeats⟩ := repeats_of_queued inv late.1 (.inl late.2) queued
      exact ⟨_, c, pos, original, found, rfl, repeats⟩
  | connect | listen | accept | send | recv | close => cases retransmits

/-- An acknowledgement of the SYN alone. -/
def duplicateAck : Call :=
  .handleSegment ⟨80, 5000, 101, 0x01000002, 0x5010, 1000⟩ [] server.ip client.ip 6

/-- Three bytes are sent, and two such acknowledgements arrive. -/
def duplicateAcks : List Call :=
  opening ++ [.send (client, server) [1, 2, 3], duplicateAck, duplicateAck]

theorem retransmission_faithful_duplicateAcks :
    ∃ (s : Segment) (ip : Ipv4Addr) (key : TcpConnectionKey) (c : TcpControlBlock) (pos : Nat)
      (original : Segment),
      .sendSegment s ip ∈ ((runCalls new duplicateAcks).step duplicateAck).2 ∧
      s.payload = [1, 2, 3] ∧ (runCalls new duplicateAcks).connGet key = some c ∧
      Repeats c s pos original := by
  let s : Segment := ⟨client.ip, server.ip, 5000, 80, 0x01000002, 101, 0x18, 65535, [], [1, 2, 3]⟩
  have emitted : .sendSegment s server.ip ∈ ((runCalls new duplicateAcks).step duplicateAck).2 := by
    decide +kernel
  have unexpired : (runCalls new duplicateAcks).Unexpired duplicateAck := trivial
  have pushed : Retransmits s duplicateAck := by
    change TcpFlags.Has s.flags psh
    decide
  obtain ⟨key, c, pos, original, found, -, repeats⟩ :=
    retransmission_faithful (run_runCalls new duplicateAcks) unexpired emitted pushed
  exact ⟨s, server.ip, key, c, pos, original, emitted, rfl, found, repeats⟩

/-- The timer emits a segment that is no retransmission of the connection between `client` and
`server`. -/
def Unfaithful (t : TcpSocketTable) (now : Nat) (s : Segment) : Prop :=
  .sendSegment s server.ip ∈ (t.step (.tick now)).2 ∧ Retransmits s (.tick now) ∧
    ∃ c, t.connGet (client, server) = some c ∧
      ∀ (pos : Nat) (original : Segment), ¬Repeats c s pos original

theorem unfaithful_of_computed {now : Nat} (sent : List (Nat × List UInt8)) (acked : Nat)
    (computed : ((t.connGet (client, server)).map fun c =>
      (c.originals.map fun original => (original.1, original.2.payload), c.acked)) =
      some (sent, acked))
    (emitted : .sendSegment s server.ip ∈ (t.step (.tick now)).2)
    (noReset : ¬TcpFlags.Has s.flags rst)
    (other : ∀ original ∈ sent, original.2 ≠ s.payload ∨ original.1 + span s ≤ acked) :
    t.Unfaithful now s := by
  obtain ⟨c, found, same⟩ := Option.map_eq_some_iff.mp computed
  obtain ⟨rfl, rfl⟩ := Prod.mk.inj same
  refine ⟨emitted, noReset, c, found, fun pos original repeats => ?_⟩
  have mem := mem_map_of_mem (f := fun original : Nat × Segment =>
    (original.1, original.2.payload)) repeats.earlier
  rcases other _ mem with differs | behind
  · exact differs repeats.payload.symm
  · exact absurd repeats.unacknowledged (Nat.not_lt.mpr behind)

/-- `close` after three bytes, and the acknowledgement of the FIN. -/
def acknowledgedFin : List Call :=
  opening ++ [.send (client, server) [1, 2, 3], .close (client, server),
    .handleSegment ⟨80, 5000, 101, 0x01000006, 0x5010, 1000⟩ [] server.ip client.ip 6]

/-- The timer sends the packet of the SYN as data, and acknowledged bytes again. -/
theorem retransmission_unfaithful :
    Unfaithful (runCalls new [.connect client server]) 1000
      ⟨client.ip, server.ip, 5000, 80, 0x01000001, 0, 0x18, 65535, [],
        (opened client server 0x01000001 0).synSegment.packet⟩ ∧
    Unfaithful (runCalls new acknowledgedFin) 1005
      ⟨client.ip, server.ip, 5000, 80, 0x01000002, 101, 0x18, 65535, [], [1, 2, 3]⟩ := by
  constructor
  · exact unfaithful_of_computed [(0, [])] 0 (by decide +kernel)
      (by decide +kernel) (by decide) (by decide +kernel)
  · exact unfaithful_of_computed [(0, []), (1, [1, 2, 3])] 5
      (by decide +kernel) (by decide +kernel) (by decide) (by decide +kernel)

end TcpSocketTable

end NexaCore.Net
