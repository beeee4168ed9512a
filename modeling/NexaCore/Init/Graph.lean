import NexaCore.Init.Manifest

/-!
# The dependency graph of the services

`BTreeSet<ServiceName>` is a finite set, iterated in the order of the names, and the map from a
service to its prerequisites a set of names with a function.
-/

namespace NexaCore.Init

/-- `GraphError` (`graph.rs:131-143`). -/
inductive GraphError where
  | duplicateService (name : ServiceName)
  | unknownDependency (service dependency : ServiceName)
  | cycle (services : List ServiceName)
deriving DecidableEq, Repr

/-- `DependencyGraph` (`graph.rs:16-21`): the keys of `requires` and the set of each. -/
structure DependencyGraph where
  services : Finset ServiceName
  prerequisites : ServiceName → Finset ServiceName

namespace DependencyGraph

def addManifest (g : DependencyGraph) (m : ServiceManifest) : Except GraphError DependencyGraph :=
  if m.name ∈ g.services then .error (.duplicateService m.name)
  else .ok ⟨insert m.name g.services, Function.update g.prerequisites m.name m.requires.toFinset⟩

/-- The first dependency that is not a service. -/
def dangling (g : DependencyGraph) : Option (ServiceName × ServiceName) :=
  g.services.sort.findSome? fun service =>
    ((g.prerequisites service).sort.find? (· ∉ g.services)).map (service, ·)

/-- `from_manifests` (`graph.rs:31-53`). -/
def fromManifests (manifests : List ServiceManifest) : Except GraphError DependencyGraph := do
  let g ← manifests.foldlM addManifest ⟨∅, fun _ => ∅⟩
  match g.dangling with
  | some (service, dependency) => .error (.unknownDependency service dependency)
  | none => .ok g

/-- The variables of `topological_order`. -/
structure Kahn where
  inDegree : ServiceName → Nat
  ready : Finset ServiceName
  order : List ServiceName

variable (g : DependencyGraph)

def start : Kahn where
  inDegree service := (g.prerequisites service).card
  ready := g.services.filter fun service => (g.prerequisites service).card = 0
  order := []

/-- One service of the inner loop, which relaxes the dependents of `next`. -/
def relax (next : ServiceName) (k : Kahn) (service : ServiceName) : Kahn :=
  if next ∈ g.prerequisites service then
    let slot := k.inDegree service - 1
    { k with
      inDegree := Function.update k.inDegree service slot
      ready := if slot = 0 then insert service k.ready else k.ready }
  else k

/-- The body of the outer loop. -/
def emit (k : Kahn) (next : ServiceName) : Kahn :=
  g.services.sort.foldl (g.relax next)
    { k with ready := k.ready.erase next, order := k.order ++ [next] }

/-- The outer loop, for at most so many rounds. -/
def rounds : Nat → Kahn → Kahn
  | 0, k => k
  | count + 1, k =>
    match k.ready.sort.head? with
    | some next => rounds count (g.emit k next)
    | none => k

/-- `topological_order` (`graph.rs:82-126`). A round lists a service that was not listed before, so
that the loop has ended after as many rounds as there are services (`ready_rounds`). -/
def topologicalOrder : Except GraphError (List ServiceName) :=
  let k := g.rounds g.services.card g.start
  if k.order.length = g.services.card then .ok k.order
  else .error (.cycle (g.services.sort.filter fun service => 0 < k.inDegree service))

end DependencyGraph

end NexaCore.Init
