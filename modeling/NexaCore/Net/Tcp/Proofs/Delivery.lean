import NexaCore.Net.Tcp.Proofs.SendSide

/-!
# The receiving side of a connection

The peer sends a stream `S`, in segments that arrive in any order, any number of times or not at
all. What `recv` has returned and what it can return next is a prefix of `S`, and `rcv_nxt` stands
for its end. `Established` consumes a FIN without a look at its sequence number. If each FIN
arrives in order, or when everything was received, `CloseWait` is entered at the end of `S` only.
-/

namespace NexaCore.Net

open Misc List TcpControlBlock Option TcpFlags

namespace TcpControlBlock

variable {c c' : TcpControlBlock} {S : List UInt8} {header : TcpHeader} {payload : List UInt8}
  {now offset : Nat}

/-- The bytes that were delivered: those that `recv` returned and those that it can return. -/
def delivered (c : TcpControlBlock) : List UInt8 := c.taken ++ c.recvBuffer

/-- The states after a FIN of the peer. -/
def FinConsumed (state : TcpState) : Prop :=
  state = .closeWait ∨ state = .lastAck ∨ state = .closing ∨ state = .timeWait

instance : DecidablePred FinConsumed := fun state => inferInstanceAs
  (Decidable (state = .closeWait ∨ state = .lastAck ∨ state = .closing ∨ state = .timeWait))

/-- A connection that was just established. -/
structure Fresh (c : TcpControlBlock) : Prop where
  state : c.state = .established
  nxt : c.rcvNxt = c.irs + 1
  nothing : c.delivered = []

/-- A segment carries the bytes of the stream at an offset that its sequence number names, and a
FIN at the end of the stream only. A number names the offset within less than `2 ^ 32` bytes
of what was delivered; in a stream shorter than that, every offset is. -/
structure Carries (S : List UInt8) (c : TcpControlBlock) (header : TcpHeader)
    (payload : List UInt8) (offset : Nat) : Prop where
  seq : header.seqNum = seqAt c.irs (1 + offset)
  below : offset < c.delivered.length + 2 ^ 32
  above : c.delivered.length < offset + 2 ^ 32
  bytes : payload = (S.drop offset).take payload.length
  inside : offset + payload.length ≤ S.length
  fin : TcpFlags.Has header.flags fin → offset + payload.length = S.length

/-- A prefix of the stream was delivered, all of it in `CloseWait`, and `rcv_nxt` stands for its
end. -/
structure RecvInv (S : List UInt8) (c : TcpControlBlock) : Prop where
  started : c.state ≠ .synSent ∧ c.state ≠ .synReceived
  start : c.delivered <+: S
  nxt : c.rcvNxt =
    seqAt c.irs (1 + c.delivered.length + if FinConsumed c.state then 1 else 0)
  whole : c.state = .closeWait → c.delivered = S

theorem Fresh.recvInv (fresh : Fresh c) (S : List UInt8) : RecvInv S c := by
  refine ⟨?_, ?_, ?_, fun closed => ?_⟩
  · rw [fresh.state]
    decide
  · rw [fresh.nothing]
    exact nil_prefix
  · rw [fresh.nothing, fresh.state, fresh.nxt]
    rfl
  · rw [fresh.state] at closed
    cases closed

/-! ## Steps -/

def recvSide (c : TcpControlBlock) : List UInt8 × List UInt8 × Seq × Seq :=
  (c.taken, c.recvBuffer, c.rcvNxt, c.irs)

theorem RecvInv.same (inv : RecvInv S c) (same : c'.delivered = c.delivered)
    (nxt : c'.rcvNxt = c.rcvNxt) (irs : c'.irs = c.irs)
    (started : c'.state ≠ .synSent ∧ c'.state ≠ .synReceived)
    (fin : FinConsumed c'.state ↔ FinConsumed c.state)
    (closed : c'.state = .closeWait → c.state = .closeWait) : RecvInv S c' := by
  refine ⟨started, ?_, ?_, fun state => ?_⟩
  · rw [same]
    exact inv.start
  · rw [nxt, irs, same, inv.nxt]
    simp only [fin]
  · rw [same]
    exact inv.whole (closed state)

theorem delivered_of_recvSide (side : c'.recvSide = c.recvSide) : c'.delivered = c.delivered ∧
    c'.rcvNxt = c.rcvNxt ∧ c'.irs = c.irs := by
  simp only [recvSide, Prod.mk.injEq] at side
  exact ⟨by rw [delivered, delivered, side.1, side.2.1], side.2.2⟩

theorem RecvInv.pass (inv : RecvInv S c) (state state' : TcpState) (before : c.state = state)
    (after : c'.state = state') (same : c'.delivered = c.delivered) (nxt : c'.rcvNxt = c.rcvNxt)
    (irs : c'.irs = c.irs) (started : state' ≠ .synSent ∧ state' ≠ .synReceived)
    (fin : FinConsumed state' ↔ FinConsumed state)
    (closed : state' = .closeWait → state = .closeWait) : RecvInv S c' := by
  subst before after
  exact inv.same same nxt irs started fin closed

theorem recvSide_afterAck (c : TcpControlBlock) (header : TcpHeader) :
    (c.afterAck header).1.recvSide = c.recvSide ∧ (c.afterAck header).1.state = c.state := by
  rcases c.afterAck_cases header with ⟨_, _, _, eq⟩ | ⟨-, -, _, eq⟩ <;> rw [eq] <;>
    exact ⟨rfl, rfl⟩

/-- A segment that begins at `rcv_nxt` carries what follows the delivered bytes. -/
theorem Carries.offset_eq (carries : Carries S c header payload offset)
    (nxt : c.rcvNxt = seqAt c.irs (1 + c.delivered.length)) (next : header.seqNum = c.rcvNxt) :
    offset = c.delivered.length := by
  have below := carries.below
  have above := carries.above
  have same : seqAt c.irs (1 + offset) = seqAt c.irs (1 + c.delivered.length) := by
    rw [← carries.seq, next, nxt]
  have positions := seqAt_inj (by omega) (by omega) same
  omega

/-- The data of a segment keeps the invariant; a segment that begins at `rcv_nxt` is taken
whole. -/
theorem RecvInv.receiveData (inv : RecvInv S c) (state : c.state = .established)
    (carries : Carries S c header payload offset) :
    RecvInv S (c.receiveData header payload).1 ∧
      (c.receiveData header payload).1.state = .established ∧
      (header.seqNum = c.rcvNxt → TcpFlags.Has header.flags fin →
        (c.receiveData header payload).1.delivered = S) ∧
      (c.delivered = S → (c.receiveData header payload).1.delivered = S) := by
  have nxt : c.rcvNxt = seqAt c.irs (1 + c.delivered.length) := by
    rw [inv.nxt, state]
    rfl
  obtain ⟨rest, stream⟩ := inv.start
  have taken : ∀ n, n = c.delivered.length → S.drop n = rest := by
    intro n same
    rw [← stream, same, drop_left]
  unfold TcpControlBlock.receiveData
  split
  · rename_i accepted
    have here := carries.offset_eq nxt accepted.2
    have bytes := carries.bytes
    rw [taken offset here] at bytes
    have more : c.taken ++ (c.recvBuffer ++ payload) = c.delivered ++ payload :=
      (append_assoc _ _ _).symm
    have start : c.delivered ++ payload <+: S := by
      rw [← stream, prefix_append_right_inj, bytes]
      exact take_prefix _ _
    refine ⟨⟨?_, ?_, ?_, fun closed => ?_⟩, state, fun _ fin => ?_, fun all => ?_⟩
    · exact inv.started
    · change c.taken ++ (c.recvBuffer ++ payload) <+: S
      rw [more]
      exact start
    · change c.rcvNxt + BitVec.ofNat 32 payload.length = seqAt c.irs
        (1 + (c.taken ++ (c.recvBuffer ++ payload)).length + if FinConsumed c.state then 1 else 0)
      rw [more, length_append, nxt, seqAt_add, state, ← Nat.add_assoc]
      rfl
    · exact absurd (state.symm.trans closed) (by decide)
    · change c.taken ++ (c.recvBuffer ++ payload) = S
      rw [more]
      apply start.eq_of_length
      rw [length_append, ← here]
      exact carries.fin fin
    · have full := start.length_le
      rw [length_append, all] at full
      exact absurd (eq_nil_of_length_eq_zero (by omega)) accepted.1
  · rename_i dropped
    refine ⟨inv, state, fun next fin => ?_, fun all => all⟩
    have here := carries.offset_eq nxt next
    have none : payload = [] := by
      by_contra some'
      exact dropped ⟨some', next⟩
    apply inv.start.eq_of_length
    have ends := carries.fin fin
    rw [none, length_nil] at ends
    omega

/-- The end of the stream is consumed when all of it was delivered. -/
theorem RecvInv.consumeFin (inv : RecvInv S c) (early : ¬FinConsumed c.state) {state : TcpState}
    (late : FinConsumed state) (whole : state = .closeWait → c.delivered = S) :
    RecvInv S (c.consumeFin state) := by
  refine ⟨?_, inv.start, ?_, whole⟩
  · change state ≠ .synSent ∧ state ≠ .synReceived
    rcases late with rfl | rfl | rfl | rfl <;> decide
  · change c.rcvNxt + 1 = seqAt c.irs (1 + c.delivered.length + if FinConsumed state then 1 else 0)
    rw [inv.nxt, if_neg early, if_pos late, Nat.add_zero, ← seqAt_add c.irs _ 1]
    rfl

theorem RecvInv.processEstablished (inv : RecvInv S c)
    (state : c.state = .established) (carries : Carries S c header payload offset)
    (orderly : TcpFlags.Has header.flags fin →
      header.seqNum = c.rcvNxt ∨ c.delivered = S) :
    RecvInv S (c.processEstablished header payload).1 := by
  rw [processEstablished_eq]
  -- The acknowledgement leaves the receiving side as it is.
  obtain ⟨side, same⟩ := c.recvSide_afterAck header
  generalize (c.afterAck header).1 = d at side same
  obtain ⟨delivered', nxt, irs⟩ := delivered_of_recvSide side
  have inv' : RecvInv S d := by
    refine inv.same delivered' nxt irs ?_ (by rw [same]) (fun closed => same ▸ closed)
    rw [same]
    exact inv.started
  have carries' : Carries S d header payload offset := by
    refine ⟨?_, ?_, ?_, carries.bytes, carries.inside, carries.fin⟩
    · rw [irs]
      exact carries.seq
    · rw [delivered']
      exact carries.below
    · rw [delivered']
      exact carries.above
  obtain ⟨received, state', next, all⟩ := inv'.receiveData (same.trans state) carries'
  dsimp only
  split
  · rename_i fin
    refine received.consumeFin ?_ (.inl rfl) fun _ => ?_
    · rw [state']
      decide
    · rcases orderly fin with here | done
      · exact next (here.trans nxt.symm) fin
      · exact all (delivered'.trans done)
  · exact received

theorem RecvInv.processFinWait1 (inv : RecvInv S c) (state : c.state = .finWait1) :
    RecvInv S (c.processFinWait1 header now).1 := by
  have acked : ∀ d : TcpControlBlock,
      d = (if TcpFlags.Has header.flags TcpFlags.ack ∧ header.ackNum = c.sndNxt then
        { c.advance header.ackNum with state := .finWait2 } else c) →
      RecvInv S d ∧ ¬FinConsumed d.state := by
    intro d eq
    split at eq
    · subst eq
      have early : ¬FinConsumed .finWait2 := by decide
      exact ⟨inv.pass .finWait1 .finWait2 state rfl rfl rfl rfl (by decide) (by decide)
        (by decide), early⟩
    · subst eq
      exact ⟨inv, by rw [state]; decide⟩
  unfold TcpControlBlock.processFinWait1
  dsimp only
  generalize equation : (if TcpFlags.Has header.flags TcpFlags.ack ∧ header.ackNum = c.sndNxt then
    { c.advance header.ackNum with state := .finWait2 } else c) = d
  obtain ⟨inv', early⟩ := acked d equation.symm
  have timeWait : FinConsumed .timeWait := by decide
  split
  · split
    · have consumed := inv'.consumeFin early timeWait (fun closed => by cases closed)
      exact ⟨consumed.started, consumed.start, consumed.nxt, consumed.whole⟩
    · exact inv'.consumeFin early (by decide) (fun closed => by cases closed)
  · exact inv'

/-- A segment keeps the invariant if it carries the stream and its FIN is in order. -/
theorem RecvInv.afterSegment (inv : RecvInv S c)
    (carries : Carries S c header payload offset)
    (orderly : c.state = .established → TcpFlags.Has header.flags fin →
      header.seqNum = c.rcvNxt ∨ c.delivered = S)
    (after : AfterSegment header payload now c c') : RecvInv S c' := by
  cases after with
  | same => exact inv
  | connected state => exact absurd state inv.started.1
  | completed state => exact absurd state inv.started.2
  | established state => exact inv.processEstablished state carries (orderly state)
  | finWait1 state => exact inv.processFinWait1 state
  | finWait2 state =>
    have early : ¬FinConsumed c.state := by
      rw [state]
      decide
    unfold processFinWait2
    split
    · have timeWait : FinConsumed .timeWait := by decide
      have consumed := inv.consumeFin early timeWait (fun closed => by cases closed)
      exact ⟨consumed.started, consumed.start, consumed.nxt, consumed.whole⟩
    · exact inv
  | closing state =>
    unfold processClosing
    split
    · exact inv.pass .closing .timeWait state rfl rfl rfl rfl (by decide) (by decide) (by decide)
    · exact inv
  | timeWait state =>
    unfold processTimeWait
    split
    · exact inv.same rfl rfl rfl inv.started Iff.rfl id
    · exact inv

theorem delivered_recv (c : TcpControlBlock) (room : Nat) :
    (c.recv room).2.delivered = c.delivered := by
  change c.taken ++ c.recvBuffer.take _ ++ c.recvBuffer.drop _ = c.taken ++ c.recvBuffer
  rw [append_assoc, take_append_drop]

theorem RecvInv.recv (inv : RecvInv S c) (room : Nat) : RecvInv S (c.recv room).2 :=
  inv.same (c.delivered_recv room) rfl rfl inv.started Iff.rfl id

theorem RecvInv.send (inv : RecvInv S c) (data : List UInt8) : RecvInv S (c.send now data).2.1 := by
  by_cases opened : IsOpen c.state
  · rw [send_of_isOpen opened]
    obtain ⟨_, _, _, _, _, eq⟩ := sendChunks_eq now (chunks (max c.mss 1) data.length data) c
    rw [eq]
    exact inv.same rfl rfl rfl inv.started Iff.rfl id
  · rw [send_of_not_isOpen opened]
    exact inv

theorem RecvInv.close (inv : RecvInv S c) : RecvInv S c.close.1 := by
  unfold TcpControlBlock.close
  split
  · rename_i state
    exact inv.pass .established .finWait1 state rfl rfl rfl rfl (by decide) (by decide) (by decide)
  · rename_i state
    exact inv.pass .closeWait .lastAck state rfl rfl rfl rfl (by decide) (by decide) (by decide)
  · exact inv

/-- Every event keeps the invariant, if the segments carry the stream and their FIN is in
order. -/
theorem RecvInv.apply {event : Event} (inv : RecvInv S c)
    (carries : ∀ header payload now, event = .segment header payload now →
      ∃ offset, Carries S c header payload offset)
    (orderly : ∀ header payload now, event = .segment header payload now →
      c.state = .established → TcpFlags.Has header.flags fin →
      header.seqNum = c.rcvNxt ∨ c.delivered = S)
    (kept : c.apply event = some c') : RecvInv S c' := by
  cases event with
  | send now data =>
    cases kept
    exact inv.send data
  | recv room =>
    cases kept
    exact inv.recv room
  | close =>
    cases kept
    exact inv.close
  | segment header payload now =>
    obtain ⟨offset, carries⟩ := carries header payload now rfl
    exact inv.afterSegment carries (orderly header payload now rfl)
      (TcpControlBlock.afterSegment kept)
  | tick now =>
    obtain ⟨-, _, _, _, _, rfl⟩ := tickConnection_eq_some kept
    exact inv.same rfl rfl rfl inv.started Iff.rfl id

/-! ## The handshake -/

/-- Before the handshake is over nothing is delivered. -/
structure HandshakeInv (c : TcpControlBlock) : Prop where
  nothing : c.state = .synSent ∨ c.state = .synReceived → c.delivered = []
  nxt : c.state = .synReceived → c.rcvNxt = c.irs + 1

theorem HandshakeInv.of_started (state : TcpState) (same : c.state = state)
    (late : ¬(state = .synSent ∨ state = .synReceived)) : HandshakeInv c := by
  subst same
  exact ⟨fun hand => absurd hand late, fun hand => absurd (.inr hand) late⟩

theorem started_of_afterSegment (after : AfterSegment header payload now c c') :
    c' = c ∨ ¬(c'.state = .synSent ∨ c'.state = .synReceived) := by
  by_cases hand : c.state = .synSent ∨ c.state = .synReceived
  · cases after with
    | same => exact .inl rfl
    | connected | completed => exact .inr (by rintro (hand | hand) <;> cases hand)
    | established state | finWait1 state | finWait2 state | closing state | timeWait state =>
      exact absurd (state ▸ hand) (by decide)
  · right
    cases sendEffect after with
    | none same states =>
      generalize c.state = state at states hand
      generalize c'.state = state' at states
      cases states with
      | same => exact hand
      | closeWait | closing | timeWait | closed => decide
    | acked state state' =>
      rcases state' with open' | open' <;> rw [open'] <;> decide
    | connected state state' | completed state state' =>
      rw [state']
      decide
    | finished state state' =>
      rcases state' with fin | fin <;> rw [fin] <;> decide

theorem HandshakeInv.apply {event : Event} (inv : HandshakeInv c)
    (kept : c.apply event = some c') : HandshakeInv c' := by
  cases event with
  | send now data =>
    cases kept
    by_cases opened : IsOpen c.state
    · rw [send_of_isOpen opened]
      obtain ⟨_, _, _, _, _, eq⟩ := sendChunks_eq now (chunks (max c.mss 1) data.length data) c
      rw [eq]
      exact ⟨inv.nothing, inv.nxt⟩
    · rw [send_of_not_isOpen opened]
      exact inv
  | recv room =>
    cases kept
    exact ⟨fun hand => (c.delivered_recv room).trans (inv.nothing hand), inv.nxt⟩
  | close =>
    cases kept
    unfold close
    split
    · exact .of_started .finWait1 rfl (by decide)
    · exact .of_started .lastAck rfl (by decide)
    · exact inv
  | segment header payload now =>
    rcases started_of_afterSegment (afterSegment kept) with rfl | late
    · exact inv
    · exact .of_started _ rfl late
  | tick now =>
    obtain ⟨-, _, _, _, _, rfl⟩ := tickConnection_eq_some kept
    exact ⟨inv.nothing, inv.nxt⟩

theorem HandshakeInv.fresh (inv : HandshakeInv c)
    (hand : c.state = .synSent ∨ c.state = .synReceived) (state' : c'.state = .established)
    (after : AfterSegment header payload now c c') : Fresh c' := by
  cases after with
  | same =>
    exact absurd (state' ▸ hand) (by decide)
  | connected state => exact ⟨rfl, rfl, inv.nothing hand⟩
  | completed state => exact ⟨rfl, inv.nxt state, inv.nothing hand⟩
  | established state | finWait1 state | finWait2 state | closing state | timeWait state =>
    exact absurd (state ▸ hand) (by decide)

end TcpControlBlock

namespace TcpSocketTable

variable {t t' : TcpSocketTable} {key : TcpConnectionKey} {S : List UInt8}

/-- The calls while the connection at a key exists: none of them removes it, and no `accept`
puts another connection there. -/
def tracking (key : TcpConnectionKey) : Lts TcpSocketTable Call := fun t call t' =>
  t' = (t.step call).1 ∧ (t'.connGet key).isSome ∧
    ∀ port, call = .accept port → (t.accept port).1 ≠ some key

/-- A segment that arrives at a connection carries the stream of the peer. -/
def Carried (S : List UInt8) (key : TcpConnectionKey) (t : TcpSocketTable) : Call → Prop
  | .handleSegment header payload srcIp dstIp _ => segmentKey header srcIp dstIp = key →
      ∀ c, t.connGet key = some c → ∃ offset, Carries S c header payload offset
  | _ => True

/-- A FIN that arrives in `Established` is at `rcv_nxt`, or all of the stream was delivered. -/
def OrderlyFin (S : List UInt8) (key : TcpConnectionKey) (t : TcpSocketTable) : Call → Prop
  | .handleSegment header _ srcIp dstIp _ => segmentKey header srcIp dstIp = key →
      TcpFlags.Has header.flags fin → ∀ c, t.connGet key = some c →
      c.state = .established → header.seqNum = c.rcvNxt ∨ c.delivered = S
  | _ => True

/-- In every reachable table, a connection whose handshake ends is fresh. -/
theorem fresh_of_handshake {calls : List Call} (run : Run system new calls t)
    {c c' : TcpControlBlock} (found : t.connGet key = some c)
    (hand : c.state = .synSent ∨ c.state = .synReceived) {header : TcpHeader}
    {payload : List UInt8} {now : Nat} (kept : c.apply (.segment header payload now) = some c')
    (state' : c'.state = .established) : Fresh c' := by
  have holds := Run.invariant (fun t => t.Keyed ∧ AllConnections HandshakeInv t)
    (fun s call s' before taken => by
      obtain ⟨keyed, all⟩ := before
      rw [taken]
      refine ⟨keyed.step call, all.step keyed ?_ ?_ fun _ _ _ _ _ _ inv kept => inv.apply kept⟩
      · exact fun _ _ _ _ => ⟨fun _ => rfl, fun hand => by cases hand⟩
      · exact fun _ _ _ _ => ⟨fun _ => rfl, fun _ => rfl⟩)
    run ⟨sendsInOrder_new.keyed, allConnections_new _⟩
  exact (holds.2.mapped key c found).fresh hand state' (afterSegment kept)

theorem fresh_of_handshake_opening :
    ∃ c c', (runCalls new [.connect client server]).connGet (client, server) = some c ∧
      c.apply (.segment ⟨80, 5000, 100, 0x01000002, 0x6012, 1000⟩ [] 5) = some c' ∧ Fresh c' := by
  have computed : ((runCalls new [.connect client server]).connGet (client, server)).any fun c =>
      c.state = .synSent ∧ (c.apply (.segment ⟨80, 5000, 100, 0x01000002, 0x6012, 1000⟩ [] 5)).any
        (·.state = .established) := by
    decide +kernel
  obtain ⟨c, found, sent, established⟩ := exists_of_any computed
  obtain ⟨c', kept, state⟩ := exists_of_any established
  exact ⟨c, c', found, kept,
    fresh_of_handshake (run_runCalls new [.connect client server]) found (.inl sent) kept state⟩

/-- A call while the connection exists keeps its receiving side in order. -/
theorem recvInv_step {call : Call} (keyed : t.Keyed) {c : TcpControlBlock}
    (found : t.connGet key = some c) (inv : RecvInv S c) (carried : Carried S key t call)
    (orderly : OrderlyFin S key t call) (taken : tracking key t call t') :
    ∃ c', t'.connGet key = some c' ∧ RecvInv S c' := by
  obtain ⟨rfl, alive, other⟩ := taken
  obtain ⟨c', found'⟩ := isSome_iff_exists.mp alive
  refine ⟨c', found', ?_⟩
  cases origin keyed found' with
  | same again =>
    obtain rfl : c = c' := some_inj.mp (found.symm.trans again)
    exact inv
  | event again seen kept =>
    obtain rfl := some_inj.mp (found.symm.trans again)
    refine inv.apply ?_ ?_ kept
    · intro header payload now segment
      rw [segment] at seen
      obtain ⟨srcIp, dstIp, rfl, own, -⟩ := eq_handleSegment_of_eventAt seen
      exact carried own c found
    · intro header payload now segment state fin
      rw [segment] at seen
      obtain ⟨srcIp, dstIp, rfl, own, -⟩ := eq_handleSegment_of_eventAt seen
      exact orderly own fin c found state
  | opened called absent | received called own absent =>
    exact absurd (absent.symm.trans found) (by simp)
  | @accepted port queue _ rest called listener backlog own =>
    refine absurd ?_ (other port called)
    rw [accept, listener]
    dsimp only
    rw [backlog]
    exact congrArg some own

/-- However the segments of a stream arrive at an established connection, a prefix of it is
delivered, `rcv_nxt` stands for its end, and `CloseWait` comes at the end of the stream, if
each FIN arrives in order or when everything was delivered. -/
theorem delivers_stream {earlier calls : List Call} {c : TcpControlBlock}
    (reached : Run system new earlier t) (found : t.connGet key = some c) (fresh : Fresh c)
    (run : Run ((tracking key).restrict fun t call =>
      Carried S key t call ∧ OrderlyFin S key t call) t calls t') :
    ∃ c', t'.connGet key = some c' ∧ c'.delivered <+: S ∧
      c'.rcvNxt =
        seqAt c'.irs (1 + c'.delivered.length + if FinConsumed c'.state then 1 else 0) ∧
      (c'.state = .closeWait → c'.delivered = S) := by
  have keyed := (SendsInOrder.run reached).keyed
  have holds := Run.invariant
    (fun t => t.Keyed ∧ ∃ c, t.connGet key = some c ∧ RecvInv S c)
    (fun s call s' before step => by
      obtain ⟨keyed, c, found, inv⟩ := before
      obtain ⟨⟨carried, orderly⟩, taken⟩ := step
      refine ⟨?_, recvInv_step keyed found inv carried orderly taken⟩
      rw [taken.1]
      exact keyed.step call)
    run ⟨keyed, c, found, fresh.recvInv S⟩
  obtain ⟨-, c', found', inv⟩ := holds
  exact ⟨c', found', inv.start, inv.nxt, inv.whole⟩

/-- A segment of `server` after `opening`, with an offset in the stream, flags and data. -/
def arrival (offset : Nat) (flags : UInt16) (payload : List UInt8) : Call :=
  .handleSegment ⟨80, 5000, seqAt 100 (1 + offset), 0x01000002, 0x5000 ||| flags, 1000⟩ payload
    server.ip client.ip 6

theorem found_opening :
    ∃ c, (runCalls new opening).connGet (client, server) = some c ∧ Fresh c ∧ c.irs = 100 := by
  have computed : ((runCalls new opening).connGet (client, server)).map
      (fun c => (c.state, c.rcvNxt, c.irs, c.taken, c.recvBuffer)) =
      some (.established, 101, 100, [], []) := by
    decide +kernel
  obtain ⟨c, found, same⟩ := map_eq_some_iff.mp computed
  simp only [Prod.mk.injEq] at same
  obtain ⟨state, nxt, irs, taken, buffer⟩ := same
  refine ⟨c, found, ⟨state, ?_, ?_⟩, irs⟩
  · rw [nxt, irs]
    rfl
  · rw [delivered, taken, buffer]
    rfl

/-- A stream of three bytes in one segment with a FIN. -/
theorem delivers_stream_opening :
    ∃ c', ((runCalls new opening).step (arrival 0 0x11 [7, 8, 9])).1.connGet (client, server) =
        some c' ∧ c'.state = .closeWait ∧ c'.delivered = [7, 8, 9] := by
  obtain ⟨c, found, fresh, irs⟩ := found_opening
  have carried : Carried [7, 8, 9] (client, server) (runCalls new opening)
      (arrival 0 0x11 [7, 8, 9]) := by
    intro own d found'
    obtain rfl := some_inj.mp (found.symm.trans found')
    refine ⟨0, ?_, ?_, ?_, rfl, le_rfl, fun _ => rfl⟩
    · rw [irs]
    · exact Nat.lt_of_lt_of_le (Nat.two_pow_pos 32) (Nat.le_add_left _ _)
    · rw [fresh.nothing]
      decide
  have orderly : OrderlyFin [7, 8, 9] (client, server) (runCalls new opening)
      (arrival 0 0x11 [7, 8, 9]) := by
    intro own fin d found' state
    obtain rfl := some_inj.mp (found.symm.trans found')
    rw [fresh.nxt, irs]
    exact .inl rfl
  have state : (((runCalls new opening).step (arrival 0 0x11 [7, 8, 9])).1.connGet
      (client, server)).map (fun c => c.state) = some .closeWait := by
    decide +kernel
  obtain ⟨d, alive, closed⟩ := map_eq_some_iff.mp state
  have taken : tracking (client, server) (runCalls new opening) (arrival 0 0x11 [7, 8, 9])
      ((runCalls new opening).step (arrival 0 0x11 [7, 8, 9])).1 :=
    ⟨rfl, by rw [alive]; rfl, fun port called => by cases called⟩
  obtain ⟨c', found', -, -, whole⟩ := delivers_stream (run_runCalls new opening) found fresh
    (Run.single ⟨⟨carried, orderly⟩, taken⟩)
  obtain rfl := some_inj.mp (alive.symm.trans found')
  exact ⟨d, alive, closed, whole closed⟩

/-- The FIN at the end of a stream of three bytes overtakes them: `CloseWait` with nothing
delivered. -/
theorem overtaking_fin_closes :
    Carried [7, 8, 9] (client, server) (runCalls new opening) (arrival 3 0x11 []) ∧
    (∃ c, (runCalls new opening).connGet (client, server) = some c ∧ Fresh c) ∧
    ∃ c', ((runCalls new opening).step (arrival 3 0x11 [])).1.connGet (client, server) = some c' ∧
      c'.state = .closeWait ∧ c'.delivered = [] := by
  obtain ⟨c, found, fresh, irs⟩ := found_opening
  refine ⟨?_, ⟨c, found, fresh⟩, exists_of_any (by decide +kernel)⟩
  intro own d found'
  obtain rfl := some_inj.mp (found.symm.trans found')
  refine ⟨3, ?_, ?_, ?_, rfl, le_rfl, fun _ => rfl⟩
  · rw [irs]
  · rw [fresh.nothing]
    decide
  · rw [fresh.nothing]
    decide

end TcpSocketTable

end NexaCore.Net
