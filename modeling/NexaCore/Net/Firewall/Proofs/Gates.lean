import NexaCore.Net.Firewall.Proofs.Ingress

/-!
# The socket gate and the packet filter

Both gates ask the same allow list, but the packet filter does not know the name that a
connection was made by. A target that only rules for names permit gets its socket, and every
packet to it is dropped.
-/

namespace NexaCore.Net.Firewall

variable {target : EgressTarget} {allow : AppAllowList}

/-- The rule looks at the address of the host and not at its name. -/
def EgressRule.ByAddress (rule : EgressRule) : Prop := ∀ suffix, rule.host ≠ .domainSuffix suffix

def Packet.GoesTo (packet : Packet) (target : EgressTarget) : Prop :=
  packet.direction = .outbound ∧ packet.protocol = target.protocol ∧
    packet.dst = ⟨target.ip, target.port⟩

theorem Packet.GoesTo.target_eq {packet : Packet}
    (goes : packet.GoesTo target) : packet.target = { target with domain := none } := by
  rw [Packet.target, goes.2.1, goes.2.2]

theorem EgressRule.matches_nameless {rule : EgressRule} :
    rule.matches { target with domain := none } = true ↔
      rule.ByAddress ∧ rule.matches target = true := by
  unfold EgressRule.matches ByAddress
  cases rule.host with
  | any | cidr | domainSuffix => simp [HostMatch.matches]

theorem AppAllowList.permits_nameless :
    allow.permits { target with domain := none } = true ↔
      ∃ rule ∈ allow.rules, rule.ByAddress ∧ rule.matches target = true := by
  simp only [permits, List.any_eq_true, EgressRule.matches_nameless]

namespace NetEnforcer

theorem openSocket_granted :
    openSocket .granted allow target = .ok () ↔ allow.permits target = true := by
  unfold openSocket evaluate
  cases allow.permits target <;> simp

/-- A packet to the target passes the gate of the filter if a rule for addresses permits it. -/
theorem passes_iff_byAddress {packet : Packet}
    (goes : packet.GoesTo target) :
    Call.Passes ⟨.granted, allow, packet⟩ ↔
      ∃ rule ∈ allow.rules, rule.ByAddress ∧ rule.matches target = true := by
  rw [← AppAllowList.permits_nameless, ← goes.target_eq]
  simp [Call.Passes, goes.1]

/-- The gates agree on a target exactly if a rule for addresses permits it whenever any rule does;
what no rule permits under any name is dropped. -/
theorem gates_agree_iff (allow : AppAllowList) (target : EgressTarget) (enforcer : NetEnforcer) :
    ((openSocket .granted allow target = .ok () → ∀ packet : Packet, packet.Opens →
        packet.GoesTo target → (enforcer.filter ⟨.granted, allow, packet⟩).1 = .accept) ↔
      (allow.permits target = true →
        ∃ rule ∈ allow.rules, rule.ByAddress ∧ rule.matches target = true)) ∧
    ((∀ domain, allow.permits { target with domain } = false) → ∀ packet : Packet,
      packet.GoesTo target → (enforcer.filter ⟨.granted, allow, packet⟩).1 = .drop) := by
  constructor
  · rw [openSocket_granted]
    refine forall_congr' fun _ => ⟨fun agree => ?_, fun permitted packet opens goes => ?_⟩
    · have goes : Packet.GoesTo ⟨target.protocol, ⟨0, 0⟩, ⟨target.ip, target.port⟩, .outbound,
          { syn := true }⟩ target := ⟨rfl, rfl, rfl⟩
      have accepted := agree _ ⟨rfl, fun _ => ⟨rfl, rfl⟩⟩ goes
      exact (passes_iff_byAddress goes).mp ((filter_accepts_iff _ _).mp accepted).1
    · exact (filter_accepts_iff _ _).mpr ⟨(passes_iff_byAddress goes).mpr permitted, .inr opens⟩
  · intro refused packet goes
    have blocked : ¬Call.Passes ⟨.granted, allow, packet⟩ := by
      intro passes
      have permitted := passes.2 goes.1
      rw [goes.target_eq, refused none] at permitted
      cases permitted
    rw [filter_eq, if_neg blocked]

/-- A socket opens to a host that is allowed by its name, and the first packet is dropped. -/
theorem gates_disagree : ∃ (allow : AppAllowList) (target : EgressTarget) (packet : Packet),
    openSocket .granted allow target = .ok () ∧ packet.Opens ∧ packet.GoesTo target ∧
      (filter {} ⟨.granted, allow, packet⟩).1 = .drop := by
  refine ⟨⟨"app", [⟨some .tcp, .domainSuffix "example.com", .exact 443⟩]⟩,
    ⟨.tcp, 0x5DB8D822, some "example.com", 443⟩,
    ⟨.tcp, ⟨0x0A000001, 4000⟩, ⟨0x5DB8D822, 443⟩, .outbound, { syn := true }⟩,
    by decide +kernel, by decide, ⟨rfl, rfl, rfl⟩, by decide +kernel⟩

end NetEnforcer

end NexaCore.Net.Firewall
