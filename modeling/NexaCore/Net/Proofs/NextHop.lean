import NexaCore.Net.Proofs.Wire
import NexaCore.Net.Routing
import NexaCore.Net.Service

/-!
# The next hop of a packet

`wrap_in_ethernet` resolves the destination of a packet and never looks at a route. The frame
has the address of the next hop only if the ARP table has the same one for the destination.
-/

namespace NexaCore.Net

open EthernetHeader List Bool EtherType

/-- A route to `dst` with the longest block, and the smallest metric among these. -/
structure RoutingTable.IsBest (table : RoutingTable) (dst : Ipv4Addr) (route : Route) : Prop where
  mem : route ∈ table.routes
  applies : route.destination.contains dst = true
  best : ∀ other ∈ table.routes, other.destination.contains dst = true → route.isBefore other

theorem RoutingTable.isBest_of_lookup {table : RoutingTable} {dst : Ipv4Addr} {route : Route}
    (found : table.lookup dst = some route) : table.IsBest dst route := by
  have trans : ∀ a b c : Route, a.isBefore b → b.isBefore c → a.isBefore c := by
    simp only [Route.isBefore, or_eq_true, and_eq_true, decide_eq_true_eq, beq_iff_eq]
    omega
  have total : ∀ a b : Route, a.isBefore b || b.isBefore a := by
    simp only [Route.isBefore, or_eq_true, and_eq_true, decide_eq_true_eq, beq_iff_eq]
    omega
  have sorted := pairwise_mergeSort trans total
    (table.routes.filter (·.destination.contains dst))
  obtain ⟨rest, order⟩ := head?_eq_some_iff.mp found
  have listed : ∀ other, other ∈ route :: rest ↔
      other ∈ table.routes ∧ other.destination.contains dst = true := by
    intro other
    rw [← order, mem_mergeSort, mem_filter]
  obtain ⟨mem, applies⟩ := (listed route).mp mem_cons_self
  rw [order, pairwise_cons] at sorted
  refine ⟨mem, applies, fun other mem applies => ?_⟩
  rcases mem_cons.mp ((listed other).mpr ⟨mem, applies⟩) with rfl | mem
  · simp [Route.isBefore]
  · exact sorted.1 other mem

/-- Where a packet for `dst` is sent over a route. -/
def Route.nextHop (route : Route) (dst : Ipv4Addr) : Ipv4Addr := route.gateway.getD dst

def ArpTable.held (t : ArpTable) (ip : Ipv4Addr) : Option MacAddress := (t.resolve ip none).1

theorem ArpTable.resolve_fst (t : ArpTable) (ip : Ipv4Addr) (pending : Option PendingPacket) :
    (t.resolve ip pending).1 = t.held ip := by
  unfold held resolve
  cases t.entries[ipKey ip]? with
  | none => rfl
  | some entry => cases state : entry.state <;> simp [state]

/-- The frame is addressed to the next hop exactly if the table has the same address for the
destination and for the next hop, or none for the destination. -/
theorem next_hop_iff (s : NetworkService) (table : RoutingTable) (dst : Ipv4Addr)
    (ourMac : MacAddress) (packet : List UInt8) :
    (∀ route, table.lookup dst = some route → table.IsBest dst route) ∧
    ((∀ frame, (s.wrapInEthernet dst ourMac packet).1 = some frame →
        ∀ route, table.IsBest dst route →
          ∃ header, EthernetHeader.parse frame = some (header, packet) ∧
            s.arp.held (route.nextHop dst) = some header.dst) ↔
      ∀ mac, s.arp.held dst = some mac → ∀ route, table.IsBest dst route →
        s.arp.held (route.nextHop dst) = some mac) := by
  refine ⟨fun route => table.isBest_of_lookup, ?_⟩
  have wrapped : (s.wrapInEthernet dst ourMac packet).1 = (s.arp.held dst).map fun mac =>
      (mk mac ourMac ipv4).serialize ++ packet := by
    rw [← s.arp.resolve_fst dst (some ⟨packet, dst⟩)]
    rfl
  rw [wrapped]
  constructor
  · intro addressed mac found route best
    obtain ⟨header, parsed, held⟩ := addressed _ (by rw [found]; rfl) route best
    rw [parse_serialize, Option.some_inj] at parsed
    rw [held, ← (Prod.mk.inj parsed).1]
  · intro same frame produced route best
    obtain ⟨mac, found, rfl⟩ := Option.map_eq_some_iff.mp produced
    exact ⟨_, parse_serialize _ _, same mac found route best⟩

/-- A default route over a gateway. -/
def gatewayRoute : Route where
  destination := ⟨#v[0, 0, 0, 0], 0⟩
  gateway := some #v[192, 0, 2, 1]
  metric := 100

/-- A table with an entry for a host beyond the gateway, and one for the gateway. -/
def bothHops : ArpTable :=
  (ArpTable.insert { maxEntries := 4 } #v[8, 8, 8, 8] #v[2, 0, 0, 0, 0, 8] 0).insert
    #v[192, 0, 2, 1] #v[2, 0, 0, 0, 0, 1] 0

/-- The frame goes to the host itself, and not to the gateway. -/
theorem next_hop_missed : ∃ (frame : List UInt8) (header : EthernetHeader),
    RoutingTable.lookup ⟨[gatewayRoute]⟩ #v[8, 8, 8, 8] = some gatewayRoute ∧
    (NetworkService.wrapInEthernet { arp := bothHops } #v[8, 8, 8, 8] #v[2, 0, 0, 0, 0, 9] [1]).1 =
      some frame ∧ EthernetHeader.parse frame = some (header, [1]) ∧
    bothHops.held (gatewayRoute.nextHop #v[8, 8, 8, 8]) ≠ some header.dst := by
  refine ⟨_, ⟨#v[2, 0, 0, 0, 0, 8], #v[2, 0, 0, 0, 0, 9], ipv4⟩, ?_, ?_,
    parse_serialize _ _, ?_⟩ <;> decide +kernel

end NexaCore.Net
