import Mathlib.Tactic

/-!
# Families of queues

A family of queues indexed by the keys of a list holds, all together, the elements
of `keys.flatMap queues`. Adding or removing one element of one queue adds or
removes it there.
-/

namespace NexaCore.Misc

open List

universe u v

variable {κ : Type u} {α : Type v}

/-- Two families that differ in one queue, where one of the two holds `x` in
addition. -/
theorem flatMap_perm_cons {keys : List κ} (nodup : keys.Nodup) {queues queues' : κ → List α}
    {k : κ} (mem : k ∈ keys) (others : ∀ j, j ≠ k → queues' j = queues j) {x : α}
    (more : (queues k).Perm (x :: queues' k)) :
    (keys.flatMap queues).Perm (x :: keys.flatMap queues') := by
  induction keys with
  | nil => cases mem
  | cons j keys ih =>
    obtain ⟨absent, nodup⟩ := nodup_cons.mp nodup
    rw [flatMap_cons, flatMap_cons]
    by_cases here : j = k
    · subst here
      rw [flatMap_congr fun j mem => others j fun same => absent (same ▸ mem)]
      exact more.append_right _
    · have later : k ∈ keys := (mem_cons.mp mem).resolve_left (Ne.symm here)
      rw [others j here]
      exact ((ih nodup later).append_left _).trans perm_middle

end NexaCore.Misc
