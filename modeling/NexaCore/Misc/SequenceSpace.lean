import Mathlib.Tactic
import Mathlib.Data.BitVec

/-!
# Sequence numbers that wrap

A counter is sent as a word of `w` bits, its position modulo `2 ^ w`. Two positions less than
`2 ^ w` apart have different words, and the order of positions less than half of that apart can
be read from the words: `seqBefore` is that order.
-/

namespace NexaCore.Misc

open Nat

variable {w : Nat} {base word : BitVec w} {m n : Nat}

/-- The word of the position `n`, counted from `base`. -/
def seqAt (base : BitVec w) (n : Nat) : BitVec w := base + BitVec.ofNat w n

@[simp] theorem seqAt_zero (base : BitVec w) : seqAt base 0 = base := by
  simp [seqAt]

theorem seqAt_add (base : BitVec w) (m n : Nat) :
    seqAt base m + BitVec.ofNat w n = seqAt base (m + n) := by
  rw [seqAt, seqAt, BitVec.add_assoc, BitVec.ofNat_add]

theorem seqAt_toNat_sub (base word : BitVec w) (m : Nat) :
    seqAt base (m + (word - seqAt base m).toNat) = word := by
  rw [← seqAt_add, BitVec.ofNat_toNat, BitVec.setWidth_eq, add_sub_cancel]

theorem toNat_seqAt_sub (base : BitVec w) (order : m ≤ n) :
    (seqAt base n - seqAt base m).toNat = (n - m) % 2 ^ w := by
  obtain ⟨k, rfl⟩ := Nat.exists_eq_add_of_le order
  rw [← seqAt_add, add_sub_cancel_left, Nat.add_sub_cancel_left, BitVec.toNat_ofNat]

theorem toNat_seqAt_sub_of_lt (order : n < m) (near : m - n < 2 ^ w) :
    (seqAt base n - seqAt base m).toNat = 2 ^ w - (m - n) := by
  have distance : (seqAt base m - seqAt base n).toNat = m - n := by
    rw [toNat_seqAt_sub base order.le, mod_eq_of_lt near]
  rw [← neg_sub, BitVec.toNat_neg, distance, mod_eq_of_lt (by omega)]

/-- Positions less than `2 ^ w` apart have different words. -/
theorem seqAt_inj (below : m < n + 2 ^ w) (above : n < m + 2 ^ w)
    (same : seqAt base m = seqAt base n) : m = n := by
  rcases lt_trichotomy m n with less | equal | greater
  · have distance := toNat_seqAt_sub base less.le
    rw [same, BitVec.sub_self, BitVec.toNat_zero, mod_eq_of_lt (by omega)] at distance
    omega
  · exact equal
  · have distance := toNat_seqAt_sub base greater.le
    rw [same, BitVec.sub_self, BitVec.toNat_zero, mod_eq_of_lt (by omega)] at distance
    omega

/-- Which position lies in the range of `len` positions from `m` on, read from the words. -/
theorem toNat_seqAt_sub_lt_iff {len : Nat} (near : n < m + 2 ^ w) (within : m + len ≤ n + 2 ^ w) :
    (seqAt base n - seqAt base m).toNat < len ↔ m ≤ n ∧ n < m + len := by
  rcases lt_or_ge n m with before | after
  · refine iff_of_false (fun short => ?_) fun inside => absurd inside.1 (not_le.mpr before)
    rw [toNat_seqAt_sub_of_lt before (by omega)] at short
    omega
  · rw [toNat_seqAt_sub base after, mod_eq_of_lt (by omega)]
    omega

/-- The first word comes before the second: less than half of the words lie between them. -/
def seqBefore (a b : BitVec w) : Prop := a ≠ b ∧ (b - a).toNat < 2 ^ (w - 1)

section

variable (positive : 0 < w)
include positive

theorem two_pow_eq_half_add_half : 2 ^ w = 2 ^ (w - 1) + 2 ^ (w - 1) := by
  obtain ⟨v, rfl⟩ := Nat.exists_eq_add_of_le' positive
  rw [Nat.add_sub_cancel, pow_succ, Nat.mul_two]

theorem seqBefore_seqAt (order : m < n) (near : n - m < 2 ^ (w - 1)) :
    seqBefore (seqAt base m) (seqAt base n) := by
  have halves := two_pow_eq_half_add_half positive
  refine ⟨fun same => ?_, ?_⟩
  · have equal := seqAt_inj (by omega) (by omega) same
    omega
  · rw [toNat_seqAt_sub base order.le, mod_eq_of_lt (by omega)]
    exact near

theorem not_seqBefore_seqAt (order : n ≤ m) (near : m - n < 2 ^ (w - 1)) :
    ¬seqBefore (seqAt base m) (seqAt base n) := by
  have halves := two_pow_eq_half_add_half positive
  rintro ⟨different, short⟩
  rcases eq_or_lt_of_le order with rfl | less
  · exact different rfl
  · rw [toNat_seqAt_sub_of_lt less (by omega)] at short
    omega

/-- A word less than half of the words after a position, and not after a later position `n`, is
that of a position up to `n`; what is left up to `n` is less than half of the words, counted
modulo their number. -/
theorem seqAt_between (order : m ≤ n) (short : (word - seqAt base m).toNat < 2 ^ (w - 1))
    (inside : word = seqAt base n ∨ seqBefore word (seqAt base n)) :
    m + (word - seqAt base m).toNat ≤ n ∧
      (n - (m + (word - seqAt base m).toNat)) % 2 ^ w < 2 ^ (w - 1) := by
  have halves := two_pow_eq_half_add_half positive
  have position := seqAt_toNat_sub base word m
  generalize (word - seqAt base m).toNat = distance at short position
  subst position
  have reached : m + distance ≤ n := by
    by_contra passed
    rcases inside with same | before
    · have equal := seqAt_inj (by omega) (by omega) same
      omega
    · exact not_seqBefore_seqAt positive (by omega) (by omega) before
  refine ⟨reached, ?_⟩
  rw [← toNat_seqAt_sub base reached]
  rcases inside with same | before
  · rw [same, BitVec.sub_self, BitVec.toNat_zero]
    exact Nat.two_pow_pos _
  · exact before.2

end

end NexaCore.Misc
