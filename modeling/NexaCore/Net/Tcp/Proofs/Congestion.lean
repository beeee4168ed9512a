import NexaCore.Net.Tcp.Proofs.SendSide

/-!
# Flow and congestion control

`send` puts all of its data on the wire: it looks at neither the congestion window nor the
window of the peer. A caller that sends no more than both allow keeps the unacknowledged bytes
within what they allowed when the last byte was sent.
-/

namespace NexaCore.Net

open Misc

namespace TcpControlBlock

variable {c c' : TcpControlBlock}

/-- The unacknowledged bytes of an open connection are within the allowance. -/
structure FlowInv (c : TcpControlBlock) : Prop where
  send : SendInv c.state c.sendSide
  bounded : IsOpen c.state → c.sendSide.outstanding ≤ c.allowance
  small : c.allowance < 2 ^ 32

theorem sendAllowance_lt (size : c.mss = defaultMss) : c.sendAllowance < 2 ^ 32 := by
  have window : c.effectiveSendWindow ≤ 65535 * 2 ^ 14 := by
    unfold effectiveSendWindow scaledWindow
    apply Nat.mul_le_mul
    · have small := c.sndWnd.toNat_lt
      omega
    · exact Nat.pow_le_pow_right (by decide) (Nat.min_le_right _ _)
  have least := Nat.min_le_right c.cwnd c.effectiveSendWindow
  rw [sendAllowance, size, defaultMss]
  omega

theorem FlowInv.toNat_sub (flow : FlowInv c) (opened : IsOpen c.state) :
    (c.sndNxt - c.sndUna).toNat = c.sendSide.outstanding :=
  flow.send.toNat_sub opened ((flow.bounded opened).trans_lt flow.small)

theorem FlowInv.send' (flow : FlowInv c) (now : Nat) (data : List UInt8)
    (allowed : IsOpen c.state → data ≠ [] →
      (c.sndNxt - c.sndUna).toNat + data.length ≤ c.sendAllowance) :
    FlowInv (c.send now data).2.1 := by
  have inv := flow.send.send now data
  by_cases opened : IsOpen c.state
  · rw [send_of_isOpen opened] at inv ⊢
    obtain ⟨whole, -⟩ := chunks_spec (max c.mss 1) (by omega) (Nat.le_refl data.length)
    obtain ⟨accepted, acked, allowance⟩ :=
      history_sendChunks now (chunks (max c.mss 1) data.length data) c
    rw [whole] at accepted
    by_cases empty : data = []
    · subst empty
      exact flow
    · have some' : chunks (max c.mss 1) data.length data ≠ [] := by
        intro none
        rw [none] at whole
        exact empty whole.symm
      rw [if_neg some'] at allowance
      have total := allowed opened empty
      have within : c.acked ≤ 1 + c.accepted.length := (flow.send.opened opened).2
      rw [flow.toNat_sub opened] at total
      change 1 + c.accepted.length - c.acked + data.length ≤ c.sendAllowance at total
      refine ⟨inv, fun _ => ?_, ?_⟩
      · rw [allowance]
        change 1 + (sendChunks now (chunks (max c.mss 1) data.length data) c).1.accepted.length -
          (sendChunks now (chunks (max c.mss 1) data.length data) c).1.acked ≤ _
        rw [accepted, acked, List.length_append]
        omega
      · rw [allowance]
        exact sendAllowance_lt flow.send.size
  · rw [send_of_not_isOpen opened]
    exact flow

theorem SendEffect.allowance_eq {ack : Seq} (effect : SendEffect ack c c') :
    c'.allowance = c.allowance := by
  cases effect with
  | none side | acked _ _ _ _ side | connected _ _ _ side | completed _ _ _ side
  | finished _ _ _ side => exact congrArg SendSide.allowance side

theorem FlowInv.segment {ack : Seq} (flow : FlowInv c) (effect : SendEffect ack c c') :
    FlowInv c' := by
  have allowance := effect.allowance_eq
  refine ⟨flow.send.segment effect, fun opened => ?_, allowance ▸ flow.small⟩
  rw [allowance]
  -- Nothing is outstanding when the handshake ends.
  have opening : c.state = .synSent ∨ c.state = .synReceived → ack = c.sndNxt →
      (c.sendSide.acknowledge ack).outstanding ≤ c.allowance := by
    intro hand all
    obtain ⟨one, stop⟩ := flow.send.acknowledge_handshake hand all
    rw [SendSide.outstanding, one, stop]
    exact Nat.zero_le _
  cases effect with
  | none same states =>
    have before : IsOpen c.state := by
      generalize c.state = state at states
      generalize c'.state = state' at states opened
      cases states with
      | same => exact opened
      | closeWait => exact .inl rfl
      | closing | timeWait | closed => exact absurd opened (by decide)
    rw [same]
    exact flow.bounded before
  | acked state state' new sent side =>
    have before := flow.bounded (.inl state)
    rw [side]
    change c.sendSide.stop - (c.acked + (ack - c.sndUna).toNat) ≤ c.allowance
    change c.sendSide.stop - c.acked ≤ c.allowance at before
    omega
  | connected state state' all side =>
    rw [side]
    exact opening (.inl state) all
  | completed state state' all side =>
    rw [side]
    exact opening (.inr state) all
  | finished state state' all side =>
    refine absurd opened ?_
    rcases state' with fin | fin <;> rw [fin] <;> decide

theorem FlowInv.close (flow : FlowInv c) : FlowInv c.close.1 := by
  have inv := flow.send.closeCall
  refine ⟨inv, ?_, ?_⟩
  · unfold TcpControlBlock.close
    split
    · exact fun opened => absurd opened (by decide : ¬IsOpen .finWait1)
    · exact fun opened => absurd opened (by decide : ¬IsOpen .lastAck)
    · exact flow.bounded
  · unfold TcpControlBlock.close
    split <;> exact flow.small

/-- Every event keeps the bound, a `send` that is within the allowance included. -/
theorem FlowInv.apply {event : Event} (flow : FlowInv c)
    (allowed : ∀ now data, event = .send now data → IsOpen c.state → data ≠ [] →
      (c.sndNxt - c.sndUna).toNat + data.length ≤ c.sendAllowance)
    (kept : c.apply event = some c') : FlowInv c' := by
  cases event with
  | send now data =>
    cases kept
    exact flow.send' now data (allowed now data rfl)
  | recv room =>
    cases kept
    exact ⟨flow.send, flow.bounded, flow.small⟩
  | close =>
    cases kept
    exact flow.close
  | segment header payload now => exact flow.segment (sendEffect (afterSegment kept))
  | tick now =>
    obtain ⟨side, state⟩ := sendSide_tickConnection kept
    have allowance : c'.allowance = c.allowance := congrArg SendSide.allowance side
    refine ⟨?_, ?_, allowance ▸ flow.small⟩
    · rw [side, state]
      exact flow.send
    · rw [side, state, allowance]
      exact flow.bounded

end TcpControlBlock

namespace TcpSocketTable

open TcpControlBlock

variable {t : TcpSocketTable} {calls : List Call}

/-- A `send` on an open connection keeps the unacknowledged bytes within one segment, or within
the congestion window and the window of the peer. -/
def Windowed (t : TcpSocketTable) : Call → Prop
  | .send key data => ∀ c, t.connGet key = some c → IsOpen c.state → data ≠ [] →
      (c.sndNxt - c.sndUna).toNat + data.length ≤ c.sendAllowance
  | _ => True

theorem eq_send_of_eventAt {key : TcpConnectionKey} {call : Call} {now : Nat} {data : List UInt8}
    (seen : t.eventAt key call = some (.send now data)) : call = .send key data := by
  cases call with
  | send k data' =>
    dsimp only [eventAt] at seen
    split at seen
    · rename_i own
      cases seen
      rw [own]
    · cases seen
  | handleSegment | recv | close =>
    dsimp only [eventAt] at seen
    split at seen <;> cases seen
  | connect | listen | accept | tick => cases seen

theorem flowInv_run (run : Run (system.restrict Windowed) new calls t) :
    t.Keyed ∧ AllConnections FlowInv t := by
  refine Run.invariant (fun t => t.Keyed ∧ AllConnections FlowInv t) ?_ run
    ⟨sendsInOrder_new.keyed, allConnections_new _⟩
  rintro t call t' ⟨keyed, all⟩ ⟨windowed, taken⟩
  rw [taken]
  refine ⟨keyed.step call, all.step keyed ?_ ?_ ?_⟩
  · intro localAddr remoteAddr iss now
    exact ⟨sendInv_opened _ _ _ _, fun opened => absurd opened (by decide : ¬IsOpen .synSent),
      Nat.two_pow_pos 32⟩
  · intro localAddr remoteAddr irs iss
    exact ⟨sendInv_newSynReceived _ _ _ _,
      fun opened => absurd opened (by decide : ¬IsOpen .synReceived), Nat.two_pow_pos 32⟩
  · intro key c event c' found seen flow kept
    refine flow.apply (fun now data sent opened nonempty => ?_) kept
    rw [sent] at seen
    have called := eq_send_of_eventAt seen
    subst called
    exact windowed c found opened nonempty

/-- In every run whose sends keep to the windows, the unacknowledged bytes of an open connection
are at most what the windows allowed when the last byte was sent. -/
theorem unacknowledged_le_allowance (run : Run (system.restrict Windowed) new calls t) :
    AllConnections (fun c => IsOpen c.state → (c.sndNxt - c.sndUna).toNat ≤ c.allowance) t := by
  obtain ⟨-, all⟩ := flowInv_run run
  refine ⟨fun key c found opened => ?_, fun port queue c found mem opened => ?_⟩
  · have flow := all.mapped key c found
    rw [flow.toNat_sub opened]
    exact flow.bounded opened
  · have flow := all.queued port queue c found mem
    rw [flow.toNat_sub opened]
    exact flow.bounded opened

theorem run_opening :
    Run (system.restrict Windowed) new (opening ++ [.send (client, server) [1, 2, 3]])
      (runCalls new (opening ++ [.send (client, server) [1, 2, 3]])) := by
  have windowed : (runCalls new opening).Windowed (.send (client, server) [1, 2, 3]) := by
    intro c found opened nonempty
    have computed : ((runCalls new opening).connGet (client, server)).map
        (fun c => ((c.sndNxt - c.sndUna).toNat, c.sendAllowance)) = some (0, 1460) := by
      decide +kernel
    rw [found] at computed
    obtain ⟨none, allowed⟩ := Prod.mk.inj (Option.some_inj.mp computed)
    rw [none, allowed]
    decide
  exact Run.cons ⟨trivial, rfl⟩ (Run.cons ⟨trivial, rfl⟩ (Run.single ⟨windowed, rfl⟩))

theorem unacknowledged_le_allowance_opening :
    ∃ c, (runCalls new (opening ++ [.send (client, server) [1, 2, 3]])).connGet (client, server) =
        some c ∧ IsOpen c.state ∧ c.allowance = 1460 ∧
      (c.sndNxt - c.sndUna).toNat ≤ c.allowance := by
  obtain ⟨c, found, state, allowance⟩ : ∃ c, (runCalls new (opening ++
      [.send (client, server) [1, 2, 3]])).connGet (client, server) = some c ∧
      c.state = .established ∧ c.allowance = 1460 := exists_of_any (by decide +kernel)
  exact ⟨c, found, .inl state, allowance,
    (unacknowledged_le_allowance run_opening).mapped _ c found (.inl state)⟩

/-- Against a window of 1000 bytes, 1461 are sent. -/
theorem unacknowledged_exceeds_allowance :
    ∃ c, (runCalls new (opening ++ [.send (client, server) (List.replicate 1461 0)])).connGet
        (client, server) = some c ∧
      IsOpen c.state ∧ c.allowance = 1460 ∧ (c.sndNxt - c.sndUna).toNat = 1461 :=
  exists_of_any (by decide +kernel)

end TcpSocketTable

end NexaCore.Net
