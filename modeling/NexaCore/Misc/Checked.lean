import Mathlib.Tactic

/-!
# Checked machine arithmetic

`Checked α` is a computation that ends in a value or in a panic (`none`).
`addU64` and `mulU64` are 64-bit operations compiled with overflow checks.
-/

namespace NexaCore.Misc

/-- A value, or `none` for a panic. -/
abbrev Checked (α : Type) := Option α

/-- `a + b` on `u64`. -/
def addU64 (a b : Nat) : Checked Nat := if a + b < 2 ^ 64 then some (a + b) else none

/-- `a * b` on `u64`. -/
def mulU64 (a b : Nat) : Checked Nat := if a * b < 2 ^ 64 then some (a * b) else none

theorem addU64_of_lt {a b : Nat} (fits : a + b < 2 ^ 64) : addU64 a b = some (a + b) := if_pos fits

theorem addU64_of_ge {a b : Nat} (overflows : 2 ^ 64 ≤ a + b) : addU64 a b = none :=
  if_neg (Nat.not_lt.mpr overflows)

theorem addU64_eq_some {a b c : Nat} (sum : addU64 a b = some c) : c = a + b := by
  unfold addU64 at sum
  split at sum
  · exact (Option.some.inj sum).symm
  · cases sum

theorem addU64_isSome {a b : Nat} : (addU64 a b).isSome ↔ a + b < 2 ^ 64 := by
  unfold addU64
  split <;> simp_all

theorem addU64_bind_addU64 {α : Type} (a b c d : Nat) (f : Nat → Nat → α) :
    ((addU64 a b).bind fun x => (addU64 c d).bind fun y => some (f x y)) =
      if a + b < 2 ^ 64 ∧ c + d < 2 ^ 64 then some (f (a + b) (c + d)) else none := by
  by_cases first : a + b < 2 ^ 64
  · by_cases second : c + d < 2 ^ 64
    · rw [addU64_of_lt first, addU64_of_lt second, if_pos ⟨first, second⟩]
      rfl
    · rw [addU64_of_lt first, addU64_of_ge (Nat.not_lt.mp second), if_neg fun h => second h.2]
      rfl
  · rw [addU64_of_ge (Nat.not_lt.mp first), if_neg fun h => first h.1]
    rfl

theorem mulU64_of_lt {a b : Nat} (fits : a * b < 2 ^ 64) : mulU64 a b = some (a * b) := if_pos fits

end NexaCore.Misc
