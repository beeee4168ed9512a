import NexaCore.Kernel.Heap.SlabHeap
import NexaCore.Misc.BitField

/-!
# Sizes and alignments

The size classes are the powers of two from 16 to 4096, so that a block of the class that
serves a layout has its size and its alignment. Rounding up to a power of two does not
wrap around below 2^64 - 4096.
-/

namespace NexaCore.Heap

open Misc List

def classBytes (i : Nat) : Nat := 2 ^ (i + 4)

theorem sizeClasses_eq {i : Nat} (below : i < 9) : sizeClasses[i]? = some (classBytes i) := by
  revert i
  decide

theorem classBytes_le {i : Nat} (below : i < 9) : classBytes i ≤ pageBytes :=
  Nat.pow_le_pow_right (by decide : 2 > 0) (by omega : i + 4 ≤ 12)

theorem classBytes_pos (i : Nat) : 16 ≤ classBytes i :=
  Nat.pow_le_pow_right (by decide : 2 > 0) (by omega : 4 ≤ i + 4)

theorem sizeClassIndex_eq (size align : Nat) :
    sizeClassIndex size align =
      if max size align > maxSmallBytes then none
      else sizeClasses.findIdx? (max size align ≤ ·) := by
  have need : (if size > align then size else align) = max size align := by
    split <;> omega
  simp only [sizeClassIndex, need]

theorem sizeClassIndex_eq_some {size align idx : Nat}
    (found : sizeClassIndex size align = some idx) :
    idx < 9 ∧ size ≤ classBytes idx ∧ align ≤ classBytes idx := by
  rw [sizeClassIndex_eq] at found
  split at found
  · cases found
  · obtain ⟨below, enough, -⟩ := findIdx?_eq_some_iff_getElem.mp found
    have cls : sizeClasses[idx]? = some (classBytes idx) := sizeClasses_eq below
    rw [getElem?_eq_getElem below, Option.some_inj] at cls
    rw [cls, decide_eq_true_eq] at enough
    exact ⟨below, by omega, by omega⟩

theorem sizeClassIndex_eq_none {size align : Nat} (none : sizeClassIndex size align = none)
    (page : align ≤ pageBytes) : maxSmallBytes < size := by
  by_contra small
  simp only [pageBytes, maxSmallBytes] at *
  rw [sizeClassIndex_eq, if_neg (by simp only [maxSmallBytes]; omega)] at none
  have last := findIdx?_eq_none_iff.mp none 4096 (by decide)
  rw [decide_eq_false_iff_not] at last
  omega

theorem Layout.align_dvd (layout : Layout) {k : Nat} (le : layout.align ≤ 2 ^ k) :
    layout.align ∣ 2 ^ k := by
  obtain ⟨j, power⟩ := layout.isPowerOfTwo
  rw [power] at le ⊢
  exact Nat.pow_dvd_pow 2 ((Nat.pow_le_pow_iff_right (by decide)).mp le)

theorem and_alignMask {x k : Nat} (below : x < 2 ^ 64) (small : k ≤ 64) :
    x &&& alignMask (2 ^ k) = x / 2 ^ k * 2 ^ k := by
  have mask : alignMask (2 ^ k) = (2 ^ (64 - k) - 1) <<< k := by
    have product : 2 ^ (64 - k) * 2 ^ k = 2 ^ 64 := by
      rw [← Nat.pow_add, Nat.sub_add_cancel small]
    have positive : 0 < 2 ^ k := Nat.two_pow_pos k
    rw [Nat.shiftLeft_eq, Nat.sub_mul, Nat.one_mul, product, alignMask]
    omega
  have quotient : x / 2 ^ k < 2 ^ (64 - k) := by
    rw [Nat.div_lt_iff_lt_mul (Nat.two_pow_pos k), ← Nat.pow_add, Nat.sub_add_cancel small]
    exact below
  rw [mask, and_field, Nat.mod_eq_of_lt quotient]

theorem alignUp_spec {addr k : Nat} (page : k ≤ 12) (below : addr ≤ 2 ^ 64 - 4096) :
    addr ≤ alignUp addr (2 ^ k) ∧ 2 ^ k ∣ alignUp addr (2 ^ k) := by
  have small : 2 ^ k ≤ 4096 := Nat.pow_le_pow_right (by decide) (by omega : k ≤ 12)
  have positive : 0 < 2 ^ k := Nat.two_pow_pos k
  have value : alignUp addr (2 ^ k) = (addr + (2 ^ k - 1)) / 2 ^ k * 2 ^ k := by
    rw [alignUp, Nat.mod_eq_of_lt (by omega), and_alignMask (by omega) (by omega)]
  have parts := Nat.div_add_mod' (addr + (2 ^ k - 1)) (2 ^ k)
  have rest := Nat.mod_lt (addr + (2 ^ k - 1)) positive
  rw [value]
  exact ⟨by omega, Nat.dvd_mul_left _ _⟩

theorem pageRoundUp_spec (layout : Layout) :
    ∃ run, pageRoundUp layout.size = some run ∧ layout.size ≤ run ∧ pageBytes ∣ run ∧
      (maxSmallBytes < layout.size → largeRunMin ≤ run) := by
  have fits := layout.fits
  have sum : checkedAdd layout.size (pageBytes - 1) = some (layout.size + (pageBytes - 1)) := by
    rw [checkedAdd, if_pos]
    simp only [pageBytes]
    omega
  have mask : (layout.size + (pageBytes - 1)) &&& alignMask pageBytes =
      (layout.size + (pageBytes - 1)) / 4096 * 4096 :=
    and_alignMask (k := 12) (by simp only [pageBytes]; omega) (by decide)
  refine ⟨(layout.size + (pageBytes - 1)) / 4096 * 4096,
    by rw [pageRoundUp, sum, Option.map_some, mask], ?_, Nat.dvd_mul_left _ _, fun large => ?_⟩
  · simp only [pageBytes]
    omega
  · simp only [pageBytes, maxSmallBytes, largeRunMin] at *
    omega

end NexaCore.Heap
