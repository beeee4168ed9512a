import Mathlib

/-!
# The iterative lookups of the overlay

`iterative_find_node` and `iterative_find_value` of `nexacore-mesh/src/discovery.rs`. A query
function may keep a state of its own. The two loops differ only in the answer that ends the
second, so the first is the second with answers that never do. The queried ids are read off the
log of the queries.
-/

namespace NexaCore.Mesh

open List

/-- `NodeId` (`discovery.rs:78`), as the number its big-endian bytes are. -/
abbrev NodeId := BitVec 256

/-- `NodeId::distance` (`discovery.rs:113-119`). -/
def NodeId.distance (one other : NodeId) : Nat := (one ^^^ other).toNat

/-- `K` and `ALPHA` (`discovery.rs:206, 213`). -/
def lookupWidth : Nat := 20

def lookupAlpha : Nat := 3

/-- `Contact` (`discovery.rs:222-227`), over any type of addresses. -/
structure Contact (Addr : Type) where
  id : NodeId
  addr : Addr

/-- `FindValueOutcome` (`discovery.rs:579-584`). -/
inductive FindValueOutcome (Addr : Type)
  | value (bytes : List UInt8)
  | nodes (contacts : List (Contact Addr))

section Lookup

variable {Addr S : Type}

/-- `Vec::dedup_by_key` with the id. -/
def dedupById : List (Contact Addr) → List (Contact Addr)
  | c :: d :: rest =>
    if c.id = d.id then dedupById (c :: rest) else c :: dedupById (d :: rest)
  | short => short
termination_by l => l.length

/-- `sort_dedup_by_distance` (`discovery.rs:530-535`). -/
def sortDedup (target : NodeId) (list : List (Contact Addr)) : List (Contact Addr) :=
  dedupById (list.mergeSort fun c d => target.distance c.id ≤ target.distance d.id)

/-- A lookup under way: the shortlist, the queries made with their answers, and the state of the
query function. -/
structure Progress (Addr S : Type) where
  shortlist : List (Contact Addr)
  log : List (Contact Addr × FindValueOutcome Addr)
  state : S

def Progress.queried (progress : Progress Addr S) : List NodeId := progress.log.map (·.1.id)

/-- The next peers to query (`discovery.rs:552-558`). -/
def Progress.batch (progress : Progress Addr S) : List (Contact Addr) :=
  ((progress.shortlist.take lookupWidth).filter (·.id ∉ progress.queried)).take lookupAlpha

variable (query : S → Contact Addr → FindValueOutcome Addr × S)

/-- Queries a batch (`discovery.rs:622-628`), up to a value. -/
def ask : List (Contact Addr) → Progress Addr S →
    Option (List UInt8 × Contact Addr) × Progress Addr S
  | [], progress => (none, progress)
  | peer :: rest, progress =>
    let answer := query progress.state peer
    let log := progress.log ++ [(peer, answer.1)]
    match answer.1 with
    | .value bytes => (some (bytes, peer), ⟨progress.shortlist, log, answer.2⟩)
    | .nodes contacts => ask rest ⟨progress.shortlist ++ contacts, log, answer.2⟩

theorem queried_ask {batch : List (Contact Addr)} {progress : Progress Addr S}
    (silent : (ask query batch progress).1 = none) :
    (ask query batch progress).2.queried = progress.queried ++ batch.map (·.id) := by
  induction batch generalizing progress with
  | nil => simp [ask]
  | cons peer rest ih =>
    rw [ask] at silent ⊢
    cases answer : (query progress.state peer).1 with
    | value bytes => simp [answer] at silent
    | nodes contacts =>
      simp only [answer] at silent ⊢
      rw [ih silent]
      simp [Progress.queried]

/-- The number of ids not queried yet. -/
noncomputable def Progress.unqueried (progress : Progress Addr S) : Nat :=
  {id | id ∉ progress.queried}.ncard

theorem unqueried_ask {progress : Progress Addr S} (nonempty : progress.batch ≠ [])
    (silent : (ask query progress.batch progress).1 = none) :
    (ask query progress.batch progress).2.unqueried < progress.unqueried := by
  obtain ⟨peer, inside⟩ := exists_mem_of_ne_nil _ nonempty
  have new : peer.id ∉ progress.queried := by
    simpa using (mem_filter.mp (mem_of_mem_take inside)).2
  refine Set.ncard_lt_ncard ⟨fun id unasked old => unasked ?_, fun same => ?_⟩ (Set.toFinite _)
  · exact queried_ask query silent ▸ mem_append_left _ old
  · have asked : peer.id ∈ (ask query progress.batch progress).2.queried :=
      queried_ask query silent ▸ mem_append_right _ (mem_map_of_mem inside)
    exact same new asked

/-- The loop (`discovery.rs:607-630`). -/
def search (target : NodeId) (progress : Progress Addr S) :
    Option (List UInt8 × Contact Addr) × Progress Addr S :=
  let sorted := { progress with shortlist := sortDedup target progress.shortlist }
  if _nonempty : sorted.batch = [] then (none, sorted)
  else
    match _silent : (ask query sorted.batch sorted).1 with
    | some found => (some found, (ask query sorted.batch sorted).2)
    | none => search target (ask query sorted.batch sorted).2
termination_by progress.unqueried
decreasing_by exact unqueried_ask query _nonempty _silent

/-- The contacts an answer names. -/
def FindValueOutcome.contacts : FindValueOutcome Addr → List (Contact Addr)
  | .value _ => []
  | .nodes contacts => contacts

/-- Every contact of the seeds and the answers, in the order of their arrival. -/
def heard (seeds : List (Contact Addr)) (log : List (Contact Addr × FindValueOutcome Addr)) :
    List (Contact Addr) :=
  seeds ++ log.flatMap (·.2.contacts)

end Lookup

end NexaCore.Mesh
