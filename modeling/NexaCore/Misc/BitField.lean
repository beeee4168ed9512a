import Mathlib.Data.Nat.Bitwise
import Mathlib.Tactic

/-!
# Bit fields of natural numbers

A mask of `n` ones from bit `k` on selects a field; a mask of one bit tests it.
-/

namespace NexaCore.Misc

open Nat

theorem and_field (x k n : Nat) : x &&& ((2 ^ n - 1) <<< k) = x / 2 ^ k % 2 ^ n * 2 ^ k := by
  rw [← and_two_pow_sub_one_eq_mod, ← shiftLeft_eq, ← shiftRight_eq_div_pow]
  apply eq_of_testBit_eq
  intro i
  simp only [testBit_and, testBit_shiftLeft, testBit_shiftRight]
  by_cases above : k ≤ i
  · simp [above, Nat.add_sub_cancel' above]
  · simp [above]

theorem and_bit_ne_zero (x k : Nat) : x &&& (1 <<< k) ≠ 0 ↔ x.testBit k = true := by
  rw [one_shiftLeft, Nat.and_comm, two_pow_and]
  cases x.testBit k <;> simp

theorem and_and_of_disjoint (x : Nat) {m f : Nat} (disjoint : m &&& f = 0) : x &&& m &&& f = 0 := by
  rw [Nat.and_assoc, disjoint, and_zero]

end NexaCore.Misc
