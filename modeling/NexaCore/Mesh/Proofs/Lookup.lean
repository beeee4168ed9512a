import NexaCore.Mesh.Lookup

/-!
# The lookups end with the nearest contacts

Sorting and dropping duplicates keeps, for every id, the contact that comes first
(`find?_sortDedup`). So the shortlist gives for every id the contact first heard for it, and the
contact queried for an id is the one returned for it.
-/

namespace NexaCore.Mesh

open List Progress

variable {Addr S : Type} {target id : NodeId} {list : List (Contact Addr)}

/-! ## Sorting -/

theorem find?_dedupById : (dedupById list).find? (·.id = id) = list.find? (·.id = id) := by
  fun_induction dedupById list with
  | case1 c d rest same ih =>
    rw [ih, find?_cons, find?_cons, find?_cons, ← same]
    split <;> rfl
  | case2 c d rest other ih => rw [find?_cons, find?_cons, ih]
  | case3 => rfl

section Stable

variable (target list)

/-- The sort is stable: the contacts of one id stay in their order. -/
theorem find?_sortDedup (id : NodeId) :
    (sortDedup target list).find? (·.id = id) = list.find? (·.id = id) := by
  rw [sortDedup, find?_dedupById, ← head?_filter, ← head?_filter]
  congr 1
  have equal : (list.filter (·.id = id)).Pairwise fun c d =>
      decide (target.distance c.id ≤ target.distance d.id) = true :=
    pairwise_filter.mpr <| pairwise_of_forall fun c d first second => by
      rw [of_decide_eq_true first, of_decide_eq_true second]
      simp
  have kept := (sublist_mergeSort (by simpa using fun _ _ _ => le_trans)
    (by simpa using fun _ _ => le_total _ _) equal filter_sublist).filter (·.id = id)
  simp only [filter_filter, Bool.and_self] at kept
  exact (kept.eq_of_length ((mergeSort_perm ..).symm.filter _).length_eq).symm

variable {target list}

end Stable

/-- In a strictly sorted list every contact is the one found by its id. -/
theorem find?_of_mem
    (sorted : list.Pairwise fun c d => target.distance c.id < target.distance d.id)
    {c : Contact Addr} (inside : c ∈ list) : list.find? (·.id = c.id) = some c := by
  induction list with
  | nil => cases inside
  | cons d rest ih =>
    obtain ⟨first, later⟩ := pairwise_cons.mp sorted
    rcases mem_cons.mp inside with rfl | behind
    · simp
    · have other : d.id ≠ c.id := fun same => absurd (first c behind) (same ▸ lt_irrefl _)
      rw [find?_cons_of_neg (by simpa using other), ih later behind]

/-! ## The loop -/

section Loop

variable {query : S → Contact Addr → FindValueOutcome Addr × S} {seeds : List (Contact Addr)}
  {progress : Progress Addr S} {batch : List (Contact Addr)}

def FindValueOutcome.IsNodes (outcome : FindValueOutcome Addr) : Prop := ∃ c, outcome = .nodes c

/-- What every round keeps while no value is found. -/
structure Progress.Inv (seeds : List (Contact Addr)) (progress : Progress Addr S) : Prop where
  first : ∀ id, progress.shortlist.find? (·.id = id) = (heard seeds progress.log).find? (·.id = id)
  asked : ∀ peer ∈ progress.log.map (·.1),
    (heard seeds progress.log).find? (·.id = peer.id) = some peer
  once : progress.queried.Nodup
  silent : ∀ entry ∈ progress.log, entry.2.IsNodes

theorem Progress.Inv.sort (inv : progress.Inv seeds) (target : NodeId) :
    ({ progress with shortlist := sortDedup target progress.shortlist } :
      Progress Addr S).Inv seeds :=
  { inv with first := fun id => (find?_sortDedup ..).trans (inv.first id) }

/-- A batch is new and made of the contacts first heard for their ids. -/
theorem Progress.Inv.fresh (inv : progress.Inv seeds)
    (sorted : progress.shortlist.Pairwise fun c d => target.distance c.id < target.distance d.id) :
    (progress.queried ++ progress.batch.map (·.id)).Nodup ∧
      ∀ peer ∈ progress.batch, (heard seeds progress.log).find? (·.id = peer.id) = some peer := by
  have sub : progress.batch.Sublist progress.shortlist :=
    (take_sublist ..).trans (filter_sublist.trans (take_sublist ..))
  refine ⟨nodup_append.mpr ⟨inv.once, ?_, ?_⟩, fun peer inside => ?_⟩
  · refine pairwise_map.mpr ((sorted.sublist sub).imp fun {c d} near => ?_)
    exact fun same => absurd near (same ▸ lt_irrefl _)
  · rintro id old _ new rfl
    obtain ⟨peer, inside, rfl⟩ := mem_map.mp new
    exact of_decide_eq_true (mem_filter.mp (mem_of_mem_take inside)).2 old
  · rw [← inv.first]
    exact find?_of_mem sorted (sub.subset inside)

theorem inv_start (seeds : List (Contact Addr)) (state : S) :
    (⟨seeds, [], state⟩ : Progress Addr S).Inv seeds where
  first _ := by simp [heard]
  asked _ member := by cases member
  once := nodup_nil
  silent _ member := by cases member

end Loop

end NexaCore.Mesh
