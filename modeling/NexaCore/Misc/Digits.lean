import Mathlib

/-!
# Replacing a digit

A number in base `b`, one of whose digits is replaced: the digit reads back and the
others are unchanged. A word of memory is such a number, its bytes the digits.
-/

namespace NexaCore.Misc

open Nat

/-- `x` with its digit of weight `b ^ k` replaced by `d`. -/
def replaceDigit (b x k d : Nat) : Nat :=
  x / (b * b ^ k) * (b * b ^ k) + d * b ^ k + x % b ^ k

variable {b d : Nat}

theorem replaceDigit_eq (b x k d : Nat) :
    replaceDigit b x k d = x % b ^ k + b ^ k * (x / (b * b ^ k) * b + d) := by
  rw [replaceDigit]
  ring

theorem replaceDigit_div (below : d < b) (x k : Nat) :
    replaceDigit b x k d / b ^ k = x / (b * b ^ k) * b + d := by
  have positive : 0 < b ^ k := Nat.pow_pos (zero_lt_of_lt below)
  rw [replaceDigit_eq, add_mul_div_left _ _ positive, div_eq_of_lt (mod_lt _ positive),
    Nat.zero_add]

theorem digit_replaceDigit_self (below : d < b) (x k : Nat) :
    replaceDigit b x k d / b ^ k % b = d := by
  rw [replaceDigit_div below, mul_add_mod', mod_eq_of_lt below]

theorem digit_replaceDigit_of_ne (below : d < b) (x : Nat) {j k : Nat} (other : j ≠ k) :
    replaceDigit b x k d / b ^ j % b = x / b ^ j % b := by
  have positive : 0 < b := zero_lt_of_lt below
  rcases Nat.lt_or_gt_of_ne other with lower | higher
  · -- a lower digit only depends on the remainder by `b ^ k`
    obtain ⟨rest, rfl⟩ := Nat.exists_eq_add_of_lt lower
    have divides : b ^ j * b ∣ b ^ (j + rest + 1) := ⟨b ^ rest, by ring⟩
    have remainder : replaceDigit b x (j + rest + 1) d % b ^ (j + rest + 1) =
        x % b ^ (j + rest + 1) := by
      rw [replaceDigit_eq, add_mul_mod_self_left, mod_mod]
    rw [← mod_mul_right_div_self, ← mod_mul_right_div_self, ← mod_mod_of_dvd _ divides,
      remainder, mod_mod_of_dvd _ divides]
  · -- a higher digit only depends on the quotient by `b * b ^ k`
    obtain ⟨rest, rfl⟩ := Nat.exists_eq_add_of_lt higher
    have power : b ^ (k + rest + 1) = b ^ k * b * b ^ rest := by ring
    have quotient : replaceDigit b x k d / b ^ k / b = x / b ^ k / b := by
      rw [replaceDigit_div below, Nat.div_div_eq_div_mul, Nat.mul_comm b, Nat.mul_comm _ b,
        mul_add_div positive, div_eq_of_lt below, Nat.add_zero]
    rw [power, ← Nat.div_div_eq_div_mul, ← Nat.div_div_eq_div_mul, quotient,
      Nat.div_div_eq_div_mul _ _ b, Nat.div_div_eq_div_mul]

end NexaCore.Misc
