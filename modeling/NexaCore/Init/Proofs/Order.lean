import NexaCore.Init.Graph
import NexaCore.Misc.Cycles

/-!
# The start order

Kahn's algorithm on the graph of a set of manifests. The in-degrees count the prerequisites that
are not listed yet, so that the ready services are those that may be listed next, and a service is
left over exactly if it leads to a cycle.
-/

namespace NexaCore.Init

open Misc Relation Function List
open Finset hiding map_cons mem_singleton

def Requires (manifests : List ServiceManifest) (service dependency : ServiceName) : Prop :=
  ∃ m ∈ manifests, m.name = service ∧ dependency ∈ m.requires

def Satisfied (manifests : List ServiceManifest) (listed : List ServiceName)
    (service : ServiceName) : Prop :=
  ∀ dependency, Requires manifests service dependency → dependency ∈ listed

/-- Every service once, and each the smallest of those that can be listed at its place. -/
structure StartOrder (manifests : List ServiceManifest) (order : List ServiceName) : Prop where
  perm : order.Perm (manifests.map (·.name))
  least : ∀ before next after, order = before ++ next :: after → Satisfied manifests before next ∧
    ∀ m ∈ manifests, m.name ∉ before → Satisfied manifests before m.name → next ≤ m.name

namespace DependencyGraph

/-! ## The graph of the manifests -/

/-- The graph has the services and the prerequisites of the manifests. -/
structure Represents (g : DependencyGraph) (manifests : List ServiceManifest) : Prop where
  nodup : (manifests.map (·.name)).Nodup
  services : ∀ s, s ∈ g.services ↔ s ∈ manifests.map (·.name)
  prerequisites : ∀ m ∈ manifests, g.prerequisites m.name = m.requires.toFinset

variable {g g' : DependencyGraph} {manifests : List ServiceManifest} {s : ServiceName}

theorem Represents.add {m : ServiceManifest} (represents : g.Represents manifests)
    (added : g.addManifest m = .ok g') : g'.Represents (manifests ++ [m]) := by
  unfold addManifest at added
  split at added
  · cases added
  · rename_i fresh
    cases added
    have absent : m.name ∉ manifests.map (·.name) := mt (represents.services m.name).mpr fresh
    refine ⟨?_, fun s => ?_, fun n mem => ?_⟩
    · rw [map_append, nodup_append']
      simpa [represents.nodup] using absent
    · simp only [mem_insert, represents.services, map_append, mem_append,
        map_cons, map_nil, mem_singleton]
      exact or_comm
    · rcases mem_append.mp mem with old | new
      · have other : n.name ≠ m.name := fun same => absent (same ▸ mem_map_of_mem old)
        simpa only [update_of_ne other] using represents.prerequisites n old
      · simp only [mem_singleton.mp new, update_self]

theorem Represents.addAll {more : List ServiceManifest} (represents : g.Represents manifests)
    (added : more.foldlM addManifest g = .ok g') : g'.Represents (manifests ++ more) := by
  induction more generalizing g manifests with
  | nil =>
    cases added
    simpa using represents
  | cons m rest ih =>
    rw [foldlM_cons] at added
    cases first : g.addManifest m with
    | error e => rw [first] at added; cases added
    | ok g₁ =>
      rw [first] at added
      simpa using ih (represents.add first) added

theorem fromManifests_ok (accepted : fromManifests manifests = .ok g) :
    g.Represents manifests ∧ ∀ s ∈ g.services, g.prerequisites s ⊆ g.services := by
  unfold fromManifests at accepted
  cases added : manifests.foldlM addManifest ⟨∅, fun _ => ∅⟩ with
  | error e => rw [added] at accepted; cases accepted
  | ok g₁ =>
    rw [added] at accepted
    simp only [Bind.bind, Except.bind] at accepted
    split at accepted
    · cases accepted
    · rename_i closed
      cases accepted
      have empty : Represents ⟨∅, fun _ => ∅⟩ [] := ⟨.nil, by simp, by simp⟩
      refine ⟨empty.addAll added, fun s mem d dep => ?_⟩
      have none := findSome?_eq_none_iff.mp closed s ((mem_sort _).mpr mem)
      have known := find?_eq_none.mp (Option.map_eq_none_iff.mp none) d
          ((mem_sort _).mpr dep)
      simpa using known

theorem Represents.requires_iff (represents : g.Represents manifests) (s d : ServiceName) :
    Requires manifests s d ↔ s ∈ g.services ∧ d ∈ g.prerequisites s := by
  constructor
  · rintro ⟨m, mem, rfl, dep⟩
    rw [represents.services, represents.prerequisites m mem]
    exact ⟨mem_map_of_mem mem, mem_toFinset.mpr dep⟩
  · rintro ⟨known, dep⟩
    obtain ⟨m, mem, rfl⟩ := mem_map.mp ((represents.services s).mp known)
    rw [represents.prerequisites m mem, mem_toFinset] at dep
    exact ⟨m, mem, rfl, dep⟩

/-! ## A round of the loop -/

variable {k : Kahn} {next : ServiceName}

/-- The inner loop: each dependent of `next` is counted down, and is ready when nothing is left. -/
theorem foldl_relax (g : DependencyGraph) (next : ServiceName) (k : Kahn)
    {services : List ServiceName} (nodup : services.Nodup) :
    (∀ s, (services.foldl (g.relax next) k).inDegree s =
      if s ∈ services ∧ next ∈ g.prerequisites s then k.inDegree s - 1 else k.inDegree s) ∧
    (∀ s, s ∈ (services.foldl (g.relax next) k).ready ↔
      s ∈ k.ready ∨ s ∈ services ∧ next ∈ g.prerequisites s ∧ k.inDegree s - 1 = 0) ∧
    (services.foldl (g.relax next) k).order = k.order := by
  induction services generalizing k with
  | nil => simp
  | cons service rest ih =>
    obtain ⟨absent, nodup⟩ := nodup_cons.mp nodup
    obtain ⟨degree, ready, order⟩ := ih (g.relax next k service) nodup
    rw [foldl_cons]
    refine ⟨fun s => ?_, fun s => ?_, order.trans ?_⟩
    · rw [degree]
      by_cases same : s = service
      · subst same
        by_cases dependent : next ∈ g.prerequisites s <;> simp [relax, absent, dependent]
      · by_cases dependent : next ∈ g.prerequisites service <;> simp [relax, same, dependent]
    · rw [ready]
      by_cases same : s = service
      · subst same
        by_cases dependent : next ∈ g.prerequisites s <;> simp [relax, absent, dependent]
        split <;> simp_all
      · by_cases dependent : next ∈ g.prerequisites service <;> simp [relax, same, dependent]
        split <;> simp_all
    · unfold relax
      split <;> rfl

/-- A round lists `next` and counts down its dependents. -/
theorem emit_effect (g : DependencyGraph) (k : Kahn) (next : ServiceName) :
    (g.emit k next).order = k.order ++ [next] ∧
    (∀ s ∈ g.services, (g.emit k next).inDegree s =
      if next ∈ g.prerequisites s then k.inDegree s - 1 else k.inDegree s) ∧
    ∀ s, s ∈ (g.emit k next).ready ↔ s ≠ next ∧ s ∈ k.ready ∨
      s ∈ g.services ∧ next ∈ g.prerequisites s ∧ k.inDegree s - 1 = 0 := by
  have loop := foldl_relax g next { k with ready := k.ready.erase next, order := k.order ++ [next] }
    (sort_nodup g.services (· ≤ ·))
  simp only [mem_sort, mem_erase] at loop
  obtain ⟨degree, ready, order⟩ := loop
  refine ⟨order, fun s known => (degree s).trans ?_, ready⟩
  simp only [known, true_and]

/-- `next` may follow the listed services, and is the smallest that may. -/
def Least (g : DependencyGraph) (listed : List ServiceName) (next : ServiceName) : Prop :=
  (∀ d ∈ g.prerequisites next, d ∈ listed) ∧
    ∀ s ∈ g.services, s ∉ listed → (∀ d ∈ g.prerequisites s, d ∈ listed) → next ≤ s

structure Inv (g : DependencyGraph) (k : Kahn) : Prop where
  nodup : k.order.Nodup
  known : ∀ s ∈ k.order, s ∈ g.services
  degree : ∀ s ∈ g.services, k.inDegree s = (g.prerequisites s \ k.order.toFinset).card
  ready : ∀ s, s ∈ k.ready ↔
    s ∈ g.services ∧ s ∉ k.order ∧ ∀ d ∈ g.prerequisites s, d ∈ k.order
  least : ∀ before next after, k.order = before ++ next :: after → g.Least before next

theorem inv_start (g : DependencyGraph) : g.Inv g.start where
  nodup := .nil
  known := by simp [start]
  degree := by simp [start]
  ready := by simp [start, eq_empty_iff_forall_notMem]
  least := by simp [start]

namespace Inv

section

variable (inv : g.Inv k)

include inv

theorem listed {d : ServiceName} (mem : s ∈ k.order) (dep : d ∈ g.prerequisites s) :
    d ∈ k.order ∧ k.order.idxOf d < k.order.idxOf s := by
  obtain ⟨before, after, split⟩ := append_of_mem mem
  have earlier := (inv.least before s after split).1 d dep
  have nodup := inv.nodup
  rw [split] at nodup ⊢
  have fresh : s ∉ before := fun twice =>
    (nodup_append.mp nodup).2.2 s twice s mem_cons_self rfl
  refine ⟨mem_append_left _ earlier, ?_⟩
  rw [idxOf_append_of_mem earlier, idxOf_append_of_notMem fresh, idxOf_cons_self]
  exact idxOf_lt_length_of_mem earlier

theorem degree_eq_zero_iff (mem : s ∈ g.services) :
    k.inDegree s = 0 ↔ ∀ d ∈ g.prerequisites s, d ∈ k.order := by
  rw [inv.degree s mem, card_eq_zero, sdiff_eq_empty_iff_subset]
  simp [subset_iff]

/-- Once nothing is ready, the services that wait for nothing are those that are listed. -/
theorem degree_eq_zero_iff_mem (done : k.ready = ∅) (known : s ∈ g.services) :
    k.inDegree s = 0 ↔ s ∈ k.order := by
  rw [inv.degree_eq_zero_iff known]
  refine ⟨fun met => ?_, fun listed d dep => (inv.listed listed dep).1⟩
  by_contra unlisted
  have ready := (inv.ready s).mpr ⟨known, unlisted, met⟩
  simp [done] at ready

theorem degree_emit (fresh : next ∉ k.order) (known : s ∈ g.services) :
    (g.emit k next).inDegree s = (g.prerequisites s \ (k.order ++ [next]).toFinset).card := by
  have removed : g.prerequisites s \ (k.order ++ [next]).toFinset =
      (g.prerequisites s \ k.order.toFinset).erase next := by
    ext d
    simp only [mem_sdiff, mem_erase, mem_toFinset, mem_append, mem_singleton]
    tauto
  rw [removed, (g.emit_effect k next).2.1 s known, inv.degree s known]
  by_cases dependent : next ∈ g.prerequisites s
  · rw [if_pos dependent, card_erase_of_mem (by simp [dependent, fresh])]
  · rw [if_neg dependent, erase_eq_of_notMem (by simp [dependent])]

theorem least_head (first : k.ready.sort.head? = some next) :
    next ∈ k.ready ∧ g.Least k.order next := by
  have mem : next ∈ k.ready := (mem_sort _).mp (mem_of_head? first)
  refine ⟨mem, ((inv.ready next).mp mem).2.2, fun s known unlisted satisfied => ?_⟩
  have other : s ∈ k.ready := (inv.ready s).mpr ⟨known, unlisted, satisfied⟩
  have sorted := pairwise_sort k.ready (· ≤ ·)
  obtain ⟨rest, split⟩ := head?_eq_some_iff.mp first
  rw [split] at sorted
  rw [← mem_sort (· ≤ ·), split] at other
  rcases mem_cons.mp other with rfl | later
  · exact le_rfl
  · exact rel_of_pairwise_cons sorted later

theorem emit (first : k.ready.sort.head? = some next) : g.Inv (g.emit k next) := by
  obtain ⟨mem, least⟩ := inv.least_head first
  obtain ⟨service, fresh, satisfied⟩ := (inv.ready next).mp mem
  obtain ⟨order, degree, ready⟩ := g.emit_effect k next
  have count : ∀ s ∈ g.services, (g.emit k next).inDegree s =
      (g.prerequisites s \ (g.emit k next).order.toFinset).card := by
    intro s known
    rw [order]
    exact inv.degree_emit fresh known
  have counted : ∀ s ∈ g.services, next ∈ g.prerequisites s →
      (k.inDegree s - 1 = 0 ↔ ∀ d ∈ g.prerequisites s, d ∈ k.order ++ [next]) := by
    intro s known dependent
    have value := degree s known
    rw [if_pos dependent] at value
    rw [← value, count s known, order, card_eq_zero, sdiff_eq_empty_iff_subset]
    simp [subset_iff, or_comm]
  refine ⟨?_, ?_, count, fun s => ?_, fun before n after split => ?_⟩
  · rw [order, nodup_append']
    simpa [inv.nodup] using fresh
  · rw [order]
    intro s listed
    rcases mem_append.mp listed with old | new
    · exact inv.known s old
    · rwa [mem_singleton.mp new]
  · rw [ready, order]
    constructor
    · rintro (⟨other, old⟩ | ⟨known, dependent, zero⟩)
      · obtain ⟨known, unlisted, all⟩ := (inv.ready s).mp old
        exact ⟨known, by simp [unlisted, other], fun d dep => mem_append_left _ (all d dep)⟩
      · refine ⟨known, fun listed => ?_, (counted s known dependent).mp zero⟩
        rcases mem_append.mp listed with old | new
        · exact fresh (inv.listed old dependent).1
        · rw [mem_singleton.mp new] at dependent
          exact fresh (satisfied next dependent)
    · rintro ⟨known, unlisted, all⟩
      by_cases dependent : next ∈ g.prerequisites s
      · exact .inr ⟨known, dependent, (counted s known dependent).mpr all⟩
      · simp only [mem_append, mem_singleton, not_or] at unlisted
        refine .inl ⟨unlisted.2, (inv.ready s).mpr ⟨known, unlisted.1, fun d dep => ?_⟩⟩
        rcases mem_append.mp (all d dep) with old | new
        · exact old
        · rw [mem_singleton.mp new] at dep
          exact absurd dep dependent
  · rw [order] at split
    rcases eq_nil_or_concat' after with rfl | ⟨rest, last, rfl⟩
    · obtain ⟨rfl, same⟩ := append_inj' split rfl
      cases same
      exact least
    · rw [← cons_append, ← append_assoc] at split
      exact inv.least before n rest (append_inj' split rfl).1

theorem length_le : k.order.length ≤ g.services.card := by
  rw [← toFinset_card_of_nodup inv.nodup]
  exact card_le_card fun s mem => inv.known s (mem_toFinset.mp mem)

/-- The loop keeps the invariant, and ends or lists a service in each round. -/
theorem rounds (count : Nat) : g.Inv (g.rounds count k) ∧
    ((g.rounds count k).ready = ∅ ∨ (g.rounds count k).order.length = k.order.length + count) := by
  induction count generalizing k with
  | zero => exact ⟨inv, .inr rfl⟩
  | succ count ih =>
    unfold DependencyGraph.rounds
    cases first : k.ready.sort.head? with
    | none =>
      refine ⟨inv, .inl ?_⟩
      rw [head?_eq_none_iff] at first
      rw [← sort_toFinset k.ready (· ≤ ·), first, toFinset_nil]
    | some next =>
      obtain ⟨kept, ends⟩ := ih (inv.emit first)
      refine ⟨kept, ends.imp_right fun length => ?_⟩
      rw [length, (g.emit_effect k next).1, length_append, length_singleton]
      omega

theorem complete (full : k.order.length = g.services.card) : k.order.toFinset = g.services := by
  refine eq_of_subset_of_card_le (fun s mem => inv.known s (mem_toFinset.mp mem)) ?_
  rw [toFinset_card_of_nodup inv.nodup, full]

end

end Inv

theorem ready_rounds (g : DependencyGraph) : (g.rounds g.services.card g.start).ready = ∅ := by
  obtain ⟨inv, ends⟩ := g.inv_start.rounds g.services.card
  rcases ends with done | full
  · exact done
  · rw [eq_empty_iff_forall_notMem]
    intro s mem
    obtain ⟨known, unlisted, -⟩ := (inv.ready s).mp mem
    rw [← inv.complete (by simpa [start] using full), mem_toFinset] at known
    exact unlisted known

theorem Inv.stuck_iff (inv : g.Inv k) (done : k.ready = ∅)
    (closed : ∀ s ∈ g.services, g.prerequisites s ⊆ g.services) (s : ServiceName) :
    s ∈ g.services ∧ 0 < k.inDegree s ↔
      ReachesCycle (fun s d => s ∈ g.services ∧ d ∈ g.prerequisites s) s := by
  constructor
  · rintro ⟨known, unmet⟩
    have unlisted : s ∉ k.order := fun listed =>
      unmet.ne' ((inv.degree_eq_zero_iff_mem done known).mpr listed)
    refine reachesCycle_of_serial (s := g.services \ k.order.toFinset) (fun a mem => ?_)
      (by simp [known, unlisted])
    obtain ⟨inside, left⟩ := mem_sdiff.mp mem
    have stuck : a ∉ k.ready := by simp [done]
    rw [inv.ready] at stuck
    push Not at stuck
    obtain ⟨d, dep, missing⟩ := stuck inside (mt mem_toFinset.mpr left)
    exact ⟨d, by simp [closed a inside dep, missing], inside, dep⟩
  · intro reaches
    obtain ⟨c, path, cycle⟩ := id reaches
    obtain ⟨d, ⟨known, dep⟩, -⟩ := TransGen.head'_iff.mp (cycle.trans_right path)
    refine ⟨known, Nat.pos_of_ne_zero fun zero => ?_⟩
    have listed := (inv.degree_eq_zero_iff_mem done known).mp zero
    exact not_reachesCycle (· ∈ k.order) k.order.idxOf (fun a b mem edge => inv.listed mem edge.2)
      listed reaches

/-- If not all services are listed, one of them waits for something. -/
theorem Inv.exists_waiting (inv : g.Inv k) (done : k.ready = ∅)
    (short : k.order.length ≠ g.services.card) : ∃ s ∈ g.services, 0 < k.inDegree s := by
  by_contra none
  push Not at none
  refine short (Nat.le_antisymm inv.length_le ?_)
  rw [← toFinset_card_of_nodup inv.nodup]
  refine card_le_card fun s known => mem_toFinset.mpr ?_
  exact (inv.degree_eq_zero_iff_mem done known).mp (Nat.le_zero.mp (none s known))

theorem Inv.startOrder (inv : g.Inv k) (represents : g.Represents manifests)
    (full : k.order.length = g.services.card) : StartOrder manifests k.order where
  perm := by
    refine perm_of_nodup_nodup_toFinset_eq inv.nodup represents.nodup ?_
    ext s
    rw [inv.complete full, represents.services, mem_toFinset]
  least before next after split := by
    obtain ⟨satisfied, least⟩ := inv.least before next after split
    refine ⟨fun d required => satisfied d ((represents.requires_iff next d).mp required).2,
      fun m mem unlisted all => ?_⟩
    have known := (represents.services m.name).mpr (mem_map_of_mem mem)
    exact least m.name known unlisted fun d dep =>
      all d ((represents.requires_iff m.name d).mpr ⟨known, dep⟩)

theorem startOrder_of_ok {order : List ServiceName} (represents : g.Represents manifests)
    (listed : g.topologicalOrder = .ok order) : StartOrder manifests order := by
  have inv := (g.inv_start.rounds g.services.card).1
  unfold topologicalOrder at listed
  dsimp only at listed
  split at listed
  · rename_i full
    cases listed
    exact inv.startOrder represents full
  · cases listed

end DependencyGraph

open DependencyGraph

/-- `topological_order` lists the services of an acyclic set in the order of their dependencies, the
smallest first, and otherwise names those that lead to a cycle. -/
theorem topologicalOrder_exact {manifests : List ServiceManifest} {g : DependencyGraph}
    (accepted : fromManifests manifests = .ok g) :
    ((∃ order, g.topologicalOrder = .ok order) ↔ ∀ s, ¬TransGen (Requires manifests) s s) ∧
    (∀ order, g.topologicalOrder = .ok order → StartOrder manifests order) ∧
    ∀ error, g.topologicalOrder = .error error → ∃ stuck, error = .cycle stuck ∧
      ∀ s, s ∈ stuck ↔ ReachesCycle (Requires manifests) s := by
  obtain ⟨represents, closed⟩ := fromManifests_ok accepted
  have edges : Requires manifests = fun s d => s ∈ g.services ∧ d ∈ g.prerequisites s :=
    funext₂ fun s d => propext (represents.requires_iff s d)
  have inv := (g.inv_start.rounds g.services.card).1
  have done := g.ready_rounds
  have stuck_iff := inv.stuck_iff done closed
  rw [← edges] at stuck_iff
  have split : g.topologicalOrder = if _ then _ else _ := rfl
  generalize g.rounds g.services.card g.start = k at inv done stuck_iff split
  by_cases full : k.order.length = g.services.card
  · rw [if_pos full] at split
    refine ⟨iff_of_true ⟨_, split⟩ fun s cycle => ?_, fun _ => startOrder_of_ok represents, ?_⟩
    · obtain ⟨known, unmet⟩ := (stuck_iff s).mpr ⟨s, .refl, cycle⟩
      have listed := known
      rw [← inv.complete full, mem_toFinset] at listed
      exact unmet.ne' ((inv.degree_eq_zero_iff_mem done known).mpr listed)
    · intro _ failed
      rw [split] at failed
      cases failed
  · rw [if_neg full] at split
    obtain ⟨s, known, unmet⟩ := inv.exists_waiting done full
    obtain ⟨c, -, cycle⟩ := (stuck_iff s).mp ⟨known, unmet⟩
    rw [split]
    refine ⟨iff_of_false ?_ fun acyclic => acyclic c cycle, ?_, ?_⟩
    · rintro ⟨_, ⟨⟩⟩
    · rintro _ ⟨⟩
    · rintro _ ⟨⟩
      refine ⟨_, rfl, fun s => ?_⟩
      rw [← stuck_iff s, mem_filter, mem_sort, decide_eq_true_iff]

/-- `log`, and `netd`, which requires it. -/
def twoServices : List ServiceManifest :=
  [{ name := "netd", exec := "/bin/netd", requires := ["log"] },
    { name := "log", exec := "/bin/log" }]

theorem topologicalOrder_twoServices :
    ∃ g order, fromManifests twoServices = .ok g ∧ g.topologicalOrder = .ok order ∧
      StartOrder twoServices order := by
  have known : dangling ⟨{"log", "netd"},
      update (update (fun _ => ∅) "netd" {"log"}) "log" ∅⟩ = none := by
    simp [dangling, find?_eq_none, update]
  have accepted : fromManifests twoServices = .ok ⟨{"log", "netd"},
      update (update (fun _ => ∅) "netd" {"log"}) "log" ∅⟩ := by
    simp [fromManifests, twoServices, addManifest, Bind.bind, Except.bind, pure, Except.pure, known]
  obtain ⟨acyclic, ordered, -⟩ := topologicalOrder_exact accepted
  have down : ∀ a b, True → Requires twoServices a b → True ∧ b.length < a.length := by
    simp [Requires, twoServices]
    decide
  obtain ⟨order, listed⟩ := acyclic.mpr fun s cycle =>
    not_reachesCycle _ String.length down trivial ⟨s, .refl, cycle⟩
  exact ⟨_, order, accepted, listed, ordered order listed⟩

end NexaCore.Init
