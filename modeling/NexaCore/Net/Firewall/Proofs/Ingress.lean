import NexaCore.Net.Firewall.Enforcer
import NexaCore.Misc.Components

/-!
# What the enforcer lets in

Each flow is an automaton of its own: a call moves the entry of its packet's flow and no other. An
entry exists only since an outbound packet that passed the gate opened it, and it ends with the
first reset that passes the gate. From this follows which inbound packets are accepted.

The key of a flow does not say which endpoint is the host's, so an inbound packet with the
addresses of an outbound one in the same order counts to its flow; and a reset that the gate drops
leaves the flow open.
-/

namespace NexaCore.Net.Firewall

open Misc List

/-! ## Flows -/

/-- The packets are of one flow, in the same or in opposite directions. -/
def Packet.SameFlow (p q : Packet) : Prop :=
  p.protocol = q.protocol ∧ (p.src = q.src ∧ p.dst = q.dst ∨ p.src = q.dst ∧ p.dst = q.src)

instance (p q : Packet) : Decidable (p.SameFlow q) := inferInstanceAs (Decidable (_ ∧ _))

theorem Protocol.number_inj {p q : Protocol} (same : p.number = q.number) : p = q := by
  cases p <;> cases q <;> first | rfl | cases same

theorem canonical_eq_iff {p q : Packet} : canonical p = canonical q ↔ p.SameFlow q := by
  unfold canonical Packet.SameFlow
  constructor
  · intro equal
    split at equal <;> split at equal
    all_goals
      obtain ⟨proto, first, second⟩ := FlowKey.mk.inj equal
      simp only [Protocol.number_inj proto, first, second, and_self, true_or, or_true]
  · rintro ⟨protocol, ⟨src, dst⟩ | ⟨src, dst⟩⟩
    · rw [protocol, src, dst]
    · -- in opposite directions the order of the ranks decides both keys alike
      rw [protocol, src, dst]
      rcases Nat.lt_trichotomy q.src.rank q.dst.rank with less | equal | less
      · rw [if_neg (by omega), if_pos (by omega)]
      · rw [Endpoint.rank_inj equal]
      · rw [if_pos (by omega), if_neg (by omega)]

def Packet.Opens (pkt : Packet) : Prop :=
  pkt.direction = .outbound ∧ (pkt.protocol = .tcp → pkt.flags.syn = true ∧ pkt.flags.ack = false)

instance (pkt : Packet) : Decidable pkt.Opens := inferInstanceAs (Decidable (_ ∧ _))

/-- The packet resets its connection; the flags of a UDP packet are ignored. -/
def Packet.CarriesRst (pkt : Packet) : Prop := pkt.protocol = .tcp ∧ pkt.flags.rst = true

instance (pkt : Packet) : Decidable pkt.CarriesRst := inferInstanceAs (Decidable (_ ∧ _))

/-- The entry of a flow after a packet of it. -/
def flowNext (entry : Option ConnState) (pkt : Packet) : Option ConnState :=
  match entry with
  | some state => (some (ConnTrack.advance pkt.protocol state pkt)).filter (· ≠ .closed)
  | none => if pkt.Opens then some .opened else none

namespace ConnTrack

variable {track : ConnTrack} {pkt : Packet}

theorem filter_of_some {state : ConnState} (found : track.flows[canonical pkt]? = some state) :
    track.filter pkt = (.accept, ⟨if advance pkt.protocol state pkt = .closed then
      track.flows.erase (canonical pkt)
      else track.flows.insert (canonical pkt) (advance pkt.protocol state pkt)⟩) := by
  unfold filter
  rw [found]
  dsimp only
  split <;> rfl

theorem filter_of_none (found : track.flows[canonical pkt]? = none) :
    track.filter pkt = if pkt.Opens then
      (.accept, ⟨track.flows.insert (canonical pkt) .opened⟩) else (.drop, track) := by
  unfold filter
  simp only [found]
  cases direction : pkt.direction with
  | inbound => simp [Packet.Opens, direction]
  | outbound =>
    by_cases tcp : pkt.protocol = .tcp <;> cases syn : pkt.flags.syn <;>
      cases ack : pkt.flags.ack <;> simp [Packet.Opens, direction, tcp, syn, ack]

theorem filter_flows (track : ConnTrack) (pkt : Packet) (k : FlowKey) :
    (track.filter pkt).2.flows[k]? =
      if canonical pkt = k then flowNext track.flows[k]? pkt else track.flows[k]? := by
  by_cases own : canonical pkt = k
  · subst own
    rw [if_pos rfl]
    cases found : track.flows[canonical pkt]? with
    | some state =>
      rw [filter_of_some found]
      by_cases next : advance pkt.protocol state pkt = .closed <;>
        simp [flowNext, next, Option.filter_some]
    | none =>
      rw [filter_of_none found]
      by_cases opens : pkt.Opens <;> simp [flowNext, opens, found]
  · rw [if_neg own]
    have other : k ≠ canonical pkt := fun equal => own equal.symm
    cases found : track.flows[canonical pkt]? with
    | some state =>
      rw [filter_of_some found]
      dsimp only
      split
      · rw [getElem?_erase_eq, if_neg other]
      · rw [getElem?_insert_eq, if_neg other]
    | none =>
      rw [filter_of_none found]
      split
      · exact (getElem?_insert_eq ..).trans (if_neg other)
      · rfl

theorem filter_accepts_iff (track : ConnTrack) (pkt : Packet) :
    (track.filter pkt).1 = .accept ↔ track.flows[canonical pkt]?.isSome ∨ pkt.Opens := by
  cases found : track.flows[canonical pkt]? with
  | some state => simp [filter_of_some found]
  | none =>
    rw [filter_of_none found]
    by_cases opens : pkt.Opens <;> simp [opens]

end ConnTrack

/-! ## The gate -/

/-- The capability gate and the allow list let the call's packet through to the tracker. -/
def Call.Passes (call : Call) : Prop :=
  call.cap = .granted ∧
    (call.packet.direction = .outbound → call.allow.permits call.packet.target = true)

instance (call : Call) : Decidable call.Passes := inferInstanceAs (Decidable (_ ∧ _))

theorem NetEnforcer.filter_eq (enforcer : NetEnforcer) (call : Call) :
    enforcer.filter call =
      if call.Passes then
        ((enforcer.conntrack.filter call.packet).1, ⟨(enforcer.conntrack.filter call.packet).2⟩)
      else (.drop, enforcer) := by
  unfold filter Call.Passes mayOpenSocket
  by_cases granted : call.cap = .granted
  · by_cases outbound : call.packet.direction = .outbound
    · by_cases permitted : call.allow.permits call.packet.target = true
      · simp [granted, outbound, permitted]
      · simp [granted, outbound, permitted]
    · simp [granted, outbound]
  · simp [granted]

/-- The entry of a flow after a call for it. -/
def callNext (entry : Option ConnState) (call : Call) : Option ConnState :=
  if call.Passes then flowNext entry call.packet else entry

namespace NetEnforcer

theorem actsAtKey_filter :
    ActsAtKey (fun (enforcer : NetEnforcer) k => enforcer.conntrack.flows[k]?)
      (fun call : Call => canonical call.packet) callNext
      (fun enforcer call => (enforcer.filter call).2) := by
  intro enforcer call k
  dsimp only
  rw [filter_eq]
  by_cases passes : call.Passes
  · rw [if_pos passes]
    dsimp only
    rw [ConnTrack.filter_flows]
    simp only [callNext, passes, if_true]
  · rw [if_neg passes]
    simp only [callNext, passes, if_false, ite_self]

theorem filter_accepts_iff (enforcer : NetEnforcer) (call : Call) :
    (enforcer.filter call).1 = .accept ↔ call.Passes ∧
        (enforcer.conntrack.flows[canonical call.packet]?.isSome ∨ call.packet.Opens) := by
  rw [filter_eq]
  by_cases passes : call.Passes
  · rw [if_pos passes, ConnTrack.filter_accepts_iff]
    simp only [passes, true_and]
  · rw [if_neg passes]
    simp only [passes, false_and, reduceCtorEq]

theorem afterCalls_concat (calls : List Call) (call : Call) :
    afterCalls (calls ++ [call]) = ((afterCalls calls).filter call).2 := by
  simp [afterCalls]

/-- The flow was opened by an accepted outbound packet that passed the gate, and no reset of it
passed the gate since. -/
def OpenSince (calls : List Call) (k : FlowKey) : Prop :=
  ∃ earlier opening later, calls = earlier ++ opening :: later ∧
    canonical opening.packet = k ∧ opening.packet.direction = .outbound ∧ opening.Passes ∧
    verdictAfter earlier opening = .accept ∧
    ∀ call ∈ later, canonical call.packet = k → call.Passes → ¬call.packet.CarriesRst

theorem OpenSince.concat {calls : List Call} {k : FlowKey} {call : Call} (since : OpenSince calls k)
    (quiet : canonical call.packet = k → call.Passes → ¬call.packet.CarriesRst) :
    OpenSince (calls ++ [call]) k := by
  obtain ⟨earlier, opening, later, rfl, key, outbound, passes, accepted, quiets⟩ := since
  refine ⟨earlier, opening, later ++ [call], by simp, key, outbound, passes, accepted, ?_⟩
  intro other mem
  rcases List.mem_append.mp mem with mem | mem
  · exact quiets other mem
  · rw [List.mem_singleton.mp mem]
    exact quiet

theorem openSince_of_tracked {calls : List Call} {k : FlowKey}
    (tracked : (afterCalls calls).conntrack.flows[k]?.isSome) : OpenSince calls k := by
  induction calls using List.reverseRecOn with
  | nil => simp [afterCalls] at tracked
  | append_singleton calls call ih =>
    have next := actsAtKey_filter (afterCalls calls) call k
    dsimp only at next
    rw [afterCalls_concat, next] at tracked
    by_cases own : canonical call.packet = k
    · rw [if_pos own, callNext] at tracked
      by_cases passes : call.Passes
      · rw [if_pos passes] at tracked
        cases found : (afterCalls calls).conntrack.flows[k]? with
        | some state =>
          apply (ih (by rw [found]; rfl)).concat
          intro _ _ rst
          simp [found, flowNext, ConnTrack.advance, rst.1, rst.2] at tracked
        | none =>
          have opens : call.packet.Opens := by
            rw [found] at tracked
            by_contra stray
            simp [flowNext, stray] at tracked
          refine ⟨calls, call, [], rfl, own, opens.1, passes, ?_, ?_⟩
          · exact (filter_accepts_iff _ _).mpr ⟨passes, .inr opens⟩
          · intro other mem
            cases mem
      · rw [if_neg passes] at tracked
        apply (ih tracked).concat
        intro _ passing
        exact absurd passing passes
    · rw [if_neg own] at tracked
      apply (ih tracked).concat
      intro key
      exact absurd key own

/-! ## Default-deny ingress -/

/-- The inbound packet answers an accepted outbound one that was sent with the capability and to
a permitted target, and no packet of the flow carried a reset since. -/
def Solicited (before : List Call) (p : Packet) : Prop :=
  ∃ earlier call later, before = earlier ++ call :: later ∧
    verdictAfter earlier call = .accept ∧ call.packet.direction = .outbound ∧
    call.packet.protocol = p.protocol ∧ call.packet.src = p.dst ∧ call.packet.dst = p.src ∧
    call.cap = .granted ∧ call.allow.permits call.packet.target = true ∧
    ∀ other ∈ later, other.packet.SameFlow p → ¬other.packet.CarriesRst

/-- An inbound packet comes from the end that the outbound packets of its flow went to, and a
reset is presented by an application that may send it. -/
def Oriented (before : List Call) (call : Call) : Prop :=
  (call.packet.direction = .inbound →
    ∀ earlier ∈ before, earlier.packet.direction = .outbound →
      earlier.packet.SameFlow call.packet → earlier.packet.dst = call.packet.src) ∧
    (call.packet.CarriesRst → call.Passes)

instance (before : List Call) (call : Call) : Decidable (Oriented before call) :=
  inferInstanceAs (Decidable ((_ → _) ∧ _))

/-- Default-deny ingress, for the sequences of calls whose packets are oriented; what the other
flows do has no influence in any sequence. -/
theorem ingress_solicited (calls : List Call)
    (oriented : ∀ before call, before ++ [call] <+: calls → Oriented before call) :
    (∀ before call, before ++ [call] <+: calls → call.packet.direction = .inbound →
      verdictAfter before call = .accept → Solicited before call.packet) ∧
    ∀ before call, verdictAfter before call =
      verdictAfter (before.filter fun other => other.packet.SameFlow call.packet) call := by
  constructor
  · intro before call occurs inbound accepted
    obtain ⟨-, tracked | opens⟩ := (filter_accepts_iff _ _).mp accepted
    · obtain ⟨earlier, opening, later, rfl, key, outbound, passes, accepted, quiets⟩ :=
        openSince_of_tracked tracked
      have flow := canonical_eq_iff.mp key
      have away := (oriented _ _ occurs).1 inbound opening (by simp) outbound flow
      have back : opening.packet.src = call.packet.dst := by
        rcases flow.2 with ⟨src, dst⟩ | ⟨src, -⟩
        · rw [src, ← away, dst]
        · exact src
      refine ⟨earlier, opening, later, rfl, accepted, outbound, flow.1, back, away, passes.1,
        passes.2 outbound, ?_⟩
      intro other mem same rst
      obtain ⟨left, right, rfl⟩ := append_of_mem mem
      have presented : (earlier ++ opening :: left) ++ [other] <+: calls := by
        refine List.IsPrefix.trans ⟨right ++ [call], ?_⟩ occurs
        simp
      exact quiets other mem (canonical_eq_iff.mpr same) ((oriented _ _ presented).2 rst) rst
    · rw [opens.1] at inbound
      cases inbound
  · intro before call
    have flows := actsAtKey_filter.foldl_filter before {} (canonical call.packet)
    have keys : (before.filter fun other => canonical other.packet = canonical call.packet) =
        before.filter fun other => other.packet.SameFlow call.packet := by
      simp only [canonical_eq_iff]
    rw [keys] at flows
    have verdicts : ∀ calls, verdictAfter calls call = .accept ↔ call.Passes ∧
        ((afterCalls calls).conntrack.flows[canonical call.packet]?.isSome ∨
          call.packet.Opens) := fun _ => filter_accepts_iff _ _
    have same : verdictAfter before call = .accept ↔
        verdictAfter (before.filter fun other => other.packet.SameFlow call.packet) call =
          .accept := by
      rw [verdicts, verdicts]
      unfold afterCalls
      rw [← flows]
    cases first : verdictAfter before call <;>
      cases second : verdictAfter (before.filter fun other =>
        other.packet.SameFlow call.packet) call <;> simp_all

/-- A call that presents a TCP packet between two endpoints on behalf of an application that may
reach everything. -/
def presented (src dst : Endpoint) (direction : Direction) (flags : TcpFlags) : Call where
  cap := .granted
  allow := ⟨"app", [⟨none, .any, .any⟩]⟩
  packet := ⟨.tcp, src, dst, direction, flags⟩

def openingSyn : Call := presented ⟨1, 4000⟩ ⟨2, 443⟩ .outbound { syn := true }

/-- Its peer answers. -/
def answeringSynAck : Call := presented ⟨2, 443⟩ ⟨1, 4000⟩ .inbound { syn := true, ack := true }

/-- A packet from outside that carries the host's own address as its source. -/
def spoofedAck : Call := presented ⟨1, 4000⟩ ⟨2, 443⟩ .inbound { ack := true }

theorem ingress_solicited_handshake :
    verdictAfter [openingSyn] answeringSynAck = .accept ∧
      Solicited [openingSyn] answeringSynAck.packet := by
  have oriented : ∀ before call, before ++ [call] <+: [openingSyn, answeringSynAck] →
      Oriented before call := by
    rintro (_ | ⟨first, _ | ⟨second, before⟩⟩) call occurs
    · simp only [nil_append, cons_prefix_cons, nil_prefix, and_true] at occurs
      rw [occurs]
      decide
    · simp only [cons_append, nil_append, cons_prefix_cons, nil_prefix, and_true] at occurs
      rw [occurs.1, occurs.2]
      decide
    · simp [cons_prefix_cons] at occurs
  have accepted : verdictAfter [openingSyn] answeringSynAck = .accept := by decide +kernel
  exact ⟨accepted, (ingress_solicited _ oriented).1 [openingSyn] answeringSynAck (by simp) rfl
    accepted⟩

/-- The spoofed packet is accepted, although nothing was ever sent to the end it comes from. -/
theorem ingress_unsolicited :
    spoofedAck.packet.direction = .inbound ∧ verdictAfter [openingSyn] spoofedAck = .accept ∧
      ¬Solicited [openingSyn] spoofedAck.packet := by
  refine ⟨rfl, by decide +kernel, ?_⟩
  rintro ⟨earlier, call, later, split, -, -, -, reversed, -⟩
  have only : call = openingSyn := by
    have mem : call ∈ [openingSyn] := by
      rw [split]
      simp
    simpa using mem
  rw [only] at reversed
  exact absurd reversed (by decide)

end NetEnforcer

end NexaCore.Net.Firewall
