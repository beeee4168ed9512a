import NexaCore.Net.Tcp.Proofs.SendSide

/-!
# What is not acknowledged is stored

In every reachable table, the retransmit queue of an open connection holds the unacknowledged part
of the stream, each byte once, while less than `2 ^ 31` bytes are outstanding. `snd_una` moves
forward only, up to `snd_nxt`.
-/

namespace NexaCore.Net

open Misc List Option SendSide

namespace TcpControlBlock

def outstanding (c : TcpControlBlock) : Nat := c.sendSide.outstanding

def byteSeq (c : TcpControlBlock) (j : Nat) : Seq := seqAt c.iss (1 + j)

def Holds (entry : RetransmitEntry) (seq : Seq) : Prop :=
  (seq - entry.seq).toNat < entry.data.length

/-- The retransmit queue is contiguous and holds each unacknowledged byte once. -/
structure Reliable (c : TcpControlBlock) : Prop where
  /-- An entry ends where the next one begins, the last one at `snd_nxt`. -/
  contiguous : ∀ (i : Nat) (entry : RetransmitEntry), c.retransmitQueue[i]? = some entry →
    entry.seq + BitVec.ofNat 32 entry.data.length =
      (c.retransmitQueue[i + 1]?.map RetransmitEntry.seq).getD c.sndNxt
  /-- An accepted byte that `snd_una` has not passed is in exactly one entry, with its value. -/
  stored : ∀ (j : Nat) (byte : UInt8), c.accepted[j]? = some byte → c.acked ≤ 1 + j →
    ∃ (i : Nat) (entry : RetransmitEntry), c.retransmitQueue[i]? = some entry ∧
      Holds entry (c.byteSeq j) ∧ entry.data[(c.byteSeq j - entry.seq).toNat]? = some byte ∧
      ∀ (k : Nat) (other : RetransmitEntry), c.retransmitQueue[k]? = some other →
        Holds other (c.byteSeq j) → k = i
  /-- The numbers stand for the positions. -/
  una : c.sndUna = seqAt c.iss c.acked
  nxt : c.sndNxt = c.byteSeq c.accepted.length
  /-- `snd_una` has not passed `snd_nxt`. -/
  within : (c.sndNxt - c.sndUna).toNat = c.outstanding ∧ c.acked ≤ 1 + c.accepted.length

variable {c c' : TcpControlBlock} {tiles : List (Nat × List UInt8)}

theorem contiguous_of_tiled {start : Nat} (queue : Queue c.state c.sendSide tiles)
    (nxt : c.sndNxt = seqAt c.iss c.sendSide.stop)
    (tiled : Tiled id start tiles c.sendSide.stop) {i : Nat} {entry : RetransmitEntry}
    (here : c.retransmitQueue[i]? = some entry) :
    entry.seq + BitVec.ofNat 32 entry.data.length =
      (c.retransmitQueue[i + 1]?.map RetransmitEntry.seq).getD c.sndNxt := by
  have marked : Tiled (seqAt c.iss) start c.pieces c.sendSide.stop := by
    have pieces : c.pieces = _ := queue.pieces
    rw [pieces]
    exact tiled.map
  have piece : c.pieces[i]? = some (entry.seq, entry.data) := by
    rw [pieces, getElem?_map, here]
    rfl
  obtain ⟨pos, mark, next⟩ := marked.next_mark piece
  rw [pieces, getElem?_map, Option.map_map] at next
  rw [nxt]
  refine Eq.trans ?_ next.symm
  rw [← seqAt_add, ← mark]

theorem stored_of_tiled {start : Nat} (queue : Queue c.state c.sendSide tiles)
    (opened : IsOpen c.state) (few : c.outstanding < 2 ^ 31)
    (stored : Stored c.sendSide tiles start) {j : Nat} {byte : UInt8}
    (value : c.accepted[j]? = some byte) (ahead : c.acked ≤ 1 + j) :
    ∃ (i : Nat) (entry : RetransmitEntry), c.retransmitQueue[i]? = some entry ∧
      Holds entry (c.byteSeq j) ∧ entry.data[(c.byteSeq j - entry.seq).toNat]? = some byte ∧
      ∀ (k : Nat) (other : RetransmitEntry), c.retransmitQueue[k]? = some other →
        Holds other (c.byteSeq j) → k = i := by
  have inside : j < c.accepted.length := (List.getElem?_eq_some_iff.mp value).1
  have stop : c.sendSide.stop = 1 + c.accepted.length := rfl
  have left : c.sendSide.stop - c.acked < 2 ^ 31 := few
  have low : start ≤ c.acked := stored.high
  have one := stored.low
  have elements (i : Nat) :
      (c.retransmitQueue[i]?.map fun entry : RetransmitEntry => (entry.seq, entry.data)) =
        tiles[i]?.map fun tile => (seqAt c.iss tile.1, tile.2) := by
    rw [← getElem?_map, ← getElem?_map]
    exact congrArg (·[i]?) queue.pieces
  -- Every tile ends after `acked` and is short, so it lies less than a lap from each byte.
  have near : ∀ tile ∈ tiles, c.acked < tile.1 + tile.2.length ∧ tile.2.length ≤ 1460 := by
    intro tile mem
    refine ⟨?_, (queue.sent tile mem).short⟩
    rcases queue.pending tile mem with pending | done
    · exact pending
    · rcases opened with open' | open' <;> rcases done.1 with fin | fin <;>
        exact absurd (open'.symm.trans fin) (by decide)
  have from' : start ≤ 1 + j := by omega
  have until' : 1 + j < c.sendSide.stop := by omega
  obtain ⟨i, first, data, found, -, high, before, after, data', unique⟩ :=
    stored.tiled.exists_unique_piece from' until'
  have tile : tiles[i]? = some (first, data) := found
  have short : data.length ≤ 1460 := (near _ (mem_of_getElem? tile)).2
  have here := elements i
  rw [tile] at here
  obtain ⟨entry, at', same⟩ := map_eq_some_iff.mp here
  obtain ⟨seq, bytes⟩ : entry.seq = seqAt c.iss first ∧ entry.data = data := Prod.mk.inj same
  have distance : (c.byteSeq j - entry.seq).toNat = 1 + j - first := by
    change (seqAt c.iss (1 + j) - entry.seq).toNat = _
    rw [seq, toNat_seqAt_sub _ before, Nat.mod_eq_of_lt (by omega)]
  refine ⟨i, entry, at', ?_, ?_, ?_⟩
  · rw [Holds, distance, bytes]
    omega
  · have index : start - 1 + (1 + j - start) = j := by omega
    rw [distance, bytes, data', stored.bytes, getElem?_drop, index]
    exact value
  · intro k other found' holds
    have there := elements k
    rw [found'] at there
    obtain ⟨tile', at', same⟩ := map_eq_some_iff.mp there.symm
    obtain ⟨seq', bytes'⟩ := Prod.mk.inj same
    obtain ⟨pos, mark, _, end', only⟩ := unique k tile' at'
    obtain rfl : tile'.1 = pos := mark
    obtain ⟨pending, short'⟩ := near tile' (mem_of_getElem? at')
    rw [Holds, ← seq', ← bytes'] at holds
    obtain ⟨low', high'⟩ := (toNat_seqAt_sub_lt_iff (by omega) (by omega)).mp holds
    exact only low' high'

theorem SendInv.reliable (inv : SendInv c.state c.sendSide) (opened : IsOpen c.state)
    (few : c.outstanding < 2 ^ 31) : Reliable c := by
  obtain ⟨nxt, within⟩ := inv.opened opened
  have early : c.state ≠ .synSent := by
    rcases opened with state | state <;> rw [state] <;> decide
  obtain ⟨tiles, queue⟩ := inv.queue early
  have less : c.sendSide.outstanding < 2 ^ 32 := few.trans (by decide)
  obtain ⟨start, stored⟩ := queue.stored opened less
  refine ⟨fun i entry here => ?_, fun j byte value ahead => ?_, inv.una, nxt,
    inv.toNat_sub opened less, within⟩
  · exact contiguous_of_tiled queue nxt stored.tiled here
  · exact stored_of_tiled queue opened few stored value ahead

/-! ## How `snd_una` moves -/

/-- Only a new acknowledgement moves `snd_una` of an open connection. -/
theorem sndUna_apply {event : Event} (opened : IsOpen c.state) (kept : c.apply event = some c') :
    c'.sndUna = c.sndUna ∨
      seqLt c.sndUna c'.sndUna = true ∧ seqLe c'.sndUna c.sndNxt = true := by
  cases event with
  | send now data =>
    cases kept
    left
    by_cases opened : IsOpen c.state
    · rw [send_of_isOpen opened]
      obtain ⟨_, _, _, _, _, eq⟩ := sendChunks_eq _ _ c
      rw [eq]
    · rw [send_of_not_isOpen opened]
  | recv room =>
    cases kept
    exact .inl rfl
  | close =>
    cases kept
    left
    unfold close
    split <;> rfl
  | segment header payload now =>
    cases sendEffect (afterSegment kept) with
    | none same => exact .inl (congrArg una same)
    | acked state state' new sent side =>
      have una : c'.sndUna = header.ackNum := congrArg una side
      rw [una]
      exact .inr ⟨new, sent⟩
    | connected state | completed state | finished state =>
      rw [state] at opened
      exact absurd opened (by decide)
  | tick now =>
    obtain ⟨side, -⟩ := sendSide_tickConnection kept
    exact .inl (congrArg una side)

theorem SendInv.sndUna_le {event : Event} (inv : SendInv c.state c.sendSide)
    (opened : IsOpen c.state) (few : c.outstanding < 2 ^ 31) (kept : c.apply event = some c') :
    (c'.sndUna - c.sndUna).toNat ≤ (c.sndNxt - c.sndUna).toNat := by
  rcases sndUna_apply opened kept with same | ⟨new, sent⟩
  · rw [same, sub_self]
    exact Nat.zero_le _
  · obtain ⟨-, reached, -⟩ := inv.acknowledge_between opened new sent
    have moved : c.acked + (c'.sndUna - c.sndUna).toNat ≤ c.sendSide.stop := reached
    rw [(inv.reliable opened few).within.1]
    change _ ≤ c.sendSide.stop - c.acked
    omega

end TcpControlBlock

namespace TcpSocketTable

open TcpControlBlock

/-- In every reachable table the open connections are reliable while less than `2 ^ 31` bytes are
outstanding, and the next call moves `snd_una` of such a connection forward only, up to
`snd_nxt`. A call of `accept` that returns the key puts another connection there. -/
theorem send_reliable {t : TcpSocketTable} {calls : List Call} (run : Run system new calls t) :
    AllConnections (fun c => IsOpen c.state → c.outstanding < 2 ^ 31 → Reliable c) t ∧
    ∀ (key : TcpConnectionKey) (c c' : TcpControlBlock) (call : Call), t.connGet key = some c →
      IsOpen c.state → c.outstanding < 2 ^ 31 → (t.step call).1.connGet key = some c' →
      (∀ port, call = .accept port → (t.accept port).1 ≠ some key) →
      (c'.sndUna - c.sndUna).toNat ≤ (c.sndNxt - c.sndUna).toNat := by
  have order := SendsInOrder.run run
  refine ⟨⟨fun key c found => ?_, fun port queue c found mem => ?_⟩,
    fun key c c' call found opened few found' other => ?_⟩
  · exact (order.connections.mapped key c found).reliable
  · exact (order.connections.queued port queue c found mem).reliable
  · have inv := order.connections.mapped key c found
    cases origin order.keyed found' with
    | same again =>
      obtain rfl : c = c' := some_inj.mp (found.symm.trans again)
      rw [sub_self]
      exact Nat.zero_le _
    | event again seen kept =>
      obtain rfl := some_inj.mp (found.symm.trans again)
      exact inv.sndUna_le opened few kept
    | opened called absent | received called own absent =>
      exact absurd (absent.symm.trans found) (by simp)
    | @accepted port queue _ rest called listener backlog own =>
      refine absurd ?_ (other port called)
      rw [accept, listener]
      dsimp only
      rw [backlog]
      exact congrArg some own

theorem send_reliable_opening :
    ∃ c, (runCalls new (opening ++ [.send (client, server) [1, 2, 3]])).connGet (client, server) =
        some c ∧ IsOpen c.state ∧ c.accepted = [1, 2, 3] ∧ c.acked = 1 ∧ Reliable c := by
  obtain ⟨c, found, state, accepted, acked, few⟩ : ∃ c, (runCalls new (opening ++
      [.send (client, server) [1, 2, 3]])).connGet (client, server) = some c ∧
      c.state = .established ∧ c.accepted = [1, 2, 3] ∧ c.acked = 1 ∧ c.outstanding < 2 ^ 31 :=
    exists_of_any (by decide +kernel)
  exact ⟨c, found, .inl state, accepted, acked,
    (send_reliable (run_runCalls new _)).1.mapped _ c found (.inl state) few⟩

end TcpSocketTable

end NexaCore.Net
