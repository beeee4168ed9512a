import Mathlib.Tactic

/-!
# Intrusive lists

A linked list that lives in the memory it links: the word at the address of a node holds
the address of the next one, and zero ends the list. `Chain read head nodes` says that the
list from `head` has the nodes `nodes`.
-/

namespace NexaCore.Misc

open Function List

/-- The list from `head` has exactly these nodes. -/
def Chain (read : Nat → Nat) : Nat → List Nat → Prop
  | head, [] => head = 0
  | head, a :: nodes => head = a ∧ a ≠ 0 ∧ Chain read (read a) nodes

namespace Chain

variable {read read' : Nat → Nat} {head a : Nat} {nodes front back : List Nat}

theorem congr (chain : Chain read head nodes) (same : ∀ a ∈ nodes, read' a = read a) :
    Chain read' head nodes := by
  induction nodes generalizing head with
  | nil => exact chain
  | cons a nodes ih =>
    obtain ⟨here, block, rest⟩ := chain
    refine ⟨here, block, ih ?_ fun b mem => same b (.tail _ mem)⟩
    rw [same a (.head _)]
    exact rest

theorem push (chain : Chain read head nodes) (block : a ≠ 0) (fresh : a ∉ nodes) :
    Chain (update read a head) a (a :: nodes) := by
  refine ⟨rfl, block, ?_⟩
  rw [update_self]
  refine chain.congr fun b mem => update_of_ne ?_ _ _
  rintro rfl
  exact fresh mem

/-- The node after `front ++ [p]` taken out: the word of its predecessor is overwritten. -/
theorem unlink {p : Nat} (chain : Chain read head (front ++ p :: a :: back))
    (distinct : (front ++ p :: a :: back).Nodup) :
    Chain (update read p (read a)) head (front ++ p :: back) := by
  induction front generalizing head with
  | nil =>
    obtain ⟨here, block, next, -, rest⟩ := chain
    refine ⟨here, block, ?_⟩
    rw [update_self]
    refine rest.congr fun b mem => update_of_ne ?_ _ _
    rintro rfl
    have fresh := (nodup_cons.mp distinct).1
    exact fresh (.tail _ mem)
  | cons b front ih =>
    obtain ⟨here, block, rest⟩ := chain
    obtain ⟨fresh, distinct⟩ := nodup_cons.mp distinct
    have other : b ≠ p := by
      rintro rfl
      exact fresh (mem_append_right _ (.head _))
    refine ⟨here, block, ?_⟩
    rw [update_of_ne other]
    exact ih rest distinct

end Chain

end NexaCore.Misc
