import Mathlib
import NexaCore.Net.Wire

/-!
# Routes

The routing table of `nexacore-net/src/ip.rs` and the address blocks of
`nexacore-types/src/net.rs`.
-/

namespace NexaCore.Net

instance lengths : NeZero 33 := ⟨by decide⟩

/-- `Cidr` (`net.rs:557-563`); `Cidr::new` refuses a length above 32. -/
structure Cidr where
  addr : Ipv4Addr
  prefixLen : Fin 33
  deriving DecidableEq, Repr

namespace Cidr

/-- `Cidr::netmask` (`net.rs:579-586`), as a number. -/
def netmask (c : Cidr) : BitVec 32 :=
  if c.prefixLen = 0 then 0 else BitVec.allOnes 32 <<< (32 - c.prefixLen.val)

/-- `Cidr::contains` (`net.rs:606-611`). -/
def contains (c : Cidr) (addr : Ipv4Addr) : Bool :=
  u32At addr.toList 0 &&& c.netmask == u32At c.addr.toList 0 &&& c.netmask

end Cidr

/-- `Route` (`ip.rs:33-43`), without the name of the interface. -/
structure Route where
  destination : Cidr
  gateway : Option Ipv4Addr
  metric : Nat
  deriving DecidableEq, Repr

/-- The order of the candidates (`ip.rs:133-144`): the longer block first, then the smaller
metric. -/
def Route.isBefore (a b : Route) : Bool :=
  b.destination.prefixLen < a.destination.prefixLen ||
    (b.destination.prefixLen == a.destination.prefixLen && a.metric ≤ b.metric)

/-- `RoutingTable` (`ip.rs:90-93`). -/
structure RoutingTable where
  routes : List Route := []

/-- `RoutingTable::lookup` (`ip.rs:117-149`). The sort of the source may leave candidates that
compare equal in any order; here they stay in the order of the table. -/
def RoutingTable.lookup (table : RoutingTable) (dst : Ipv4Addr) : Option Route :=
  ((table.routes.filter (·.destination.contains dst)).mergeSort Route.isBefore).head?

end NexaCore.Net
