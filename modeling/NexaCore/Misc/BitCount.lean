import Mathlib.Tactic

/-!
# Counting the clear positions of a bitmap

A bitmap is seen as the function that says which positions are set. `clearCount` is
the number of clear positions below a bound; setting or clearing one position changes
it by one.
-/

namespace NexaCore.Misc

open Function List

/-- The number of positions below `n` that are clear. -/
def clearCount (used : Nat → Bool) (n : Nat) : Nat := (List.range n).countP fun i => !used i

/-- The lowest clear position. -/
structure FirstClear (used : Nat → Bool) (i : Nat) : Prop where
  clear : used i = false
  lowest : ∀ j, j < i → used j = true

variable {used : Nat → Bool} {n i : Nat}

theorem FirstClear.unique {j : Nat} (first : FirstClear used i) (second : FirstClear used j) :
    i = j := by
  rcases Nat.lt_trichotomy i j with before | same | after
  · exact absurd (second.lowest i before) (by simp [first.clear])
  · exact same
  · exact absurd (first.lowest j after) (by simp [second.clear])

theorem clearCount_eq_zero : clearCount used n = 0 ↔ ∀ i, i < n → used i = true := by
  simp [clearCount, countP_eq_zero]

theorem clearCount_set (below : i < n) (clear : used i = false) :
    clearCount (update used i true) n + 1 = clearCount used n := by
  induction n with
  | zero => cases below
  | succ n ih =>
    simp only [clearCount, range_succ, countP_append, countP_singleton] at ih ⊢
    by_cases last : i = n
    · subst last
      have kept : (List.range i).countP (fun j => !update used i true j) =
          (List.range i).countP fun j => !used j := by
        apply countP_congr
        intro j mem
        rw [update_of_ne (Nat.ne_of_lt (List.mem_range.mp mem))]
      simp [kept, clear]
    · have earlier := ih (by omega)
      rw [update_of_ne (Ne.symm last)]
      omega

theorem clearCount_clear (below : i < n) (set : used i = true) :
    clearCount (update used i false) n = clearCount used n + 1 := by
  have clear : update used i false i = false := by simp
  have back := clearCount_set below clear
  rw [update_idem, ← set, update_eq_self] at back
  exact back.symm

end NexaCore.Misc
