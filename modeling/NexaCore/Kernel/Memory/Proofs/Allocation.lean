import NexaCore.Kernel.Memory.Proofs.Entries
import NexaCore.Misc.BitCount
import Mathlib.Data.Set.Card

/-!
# Allocated frames

What `alloc_frame` does to the set of free frames.
-/

namespace NexaCore.Memory

open Misc Function BitVec List Nat

variable {word : BitVec 64}

theorem trailingOnes_clear (notFull : word ≠ allOnes 64) :
    trailingOnes word < 64 ∧ word.getLsbD (trailingOnes word) = false ∧
      ∀ b, b < trailingOnes word → word.getLsbD b = true := by
  unfold trailingOnes
  cases found : (range 64).find? fun i => !word.getLsbD i with
  | none =>
    refine absurd (eq_of_getLsbD_eq fun i below => ?_) notFull
    have set := find?_eq_none.mp found i (mem_range.mpr below)
    rw [getLsbD_allOnes, decide_eq_true below]
    simpa using set
  | some bit =>
    obtain ⟨clear, below, lower⟩ := find?_range_eq_some.mp found
    exact ⟨mem_range.mp below, by simpa using clear, by simpa using lower⟩

namespace BitmapFrameAllocator

variable {N : Nat} {a a' : BitmapFrameAllocator N} {addr : Nat}

/-- The bit of the frame with index `idx`. Frames out of range count as used. -/
def used (a : BitmapFrameAllocator N) (idx : Nat) : Bool :=
  if inRange : idx / framesPerWord < N then
    (a.bitmap[idx / framesPerWord]).getLsbD (idx % framesPerWord)
  else true

def free (a : BitmapFrameAllocator N) : Set Nat :=
  {n | ∃ idx, a.used idx = false ∧ n = a.base / frameBytes + idx}

/-- The frames of the allocator are frames that an entry can hold. -/
structure Addressable (a : BitmapFrameAllocator N) : Prop where
  aligned : a.base % 2 ^ 12 = 0
  bounded : a.base + N * framesPerWord * frameBytes ≤ 2 ^ 52

/-- Storing a word that differs in one bit changes that bit of the map. -/
theorem used_set (wi : Fin N) {i : Nat} {value : Bool}
    (stored : a'.bitmap = a.bitmap.set wi word wi.isLt) (here : i / framesPerWord = wi)
    (bits : ∀ b, b < 64 → word.getLsbD b =
      if b = i % framesPerWord then value else (a.bitmap.get wi).getLsbD b) :
    a'.used = update a.used i value := by
  funext k
  have place : k % framesPerWord < 64 := mod_lt _ (by decide)
  have index : k = i ↔ k / framesPerWord = wi ∧ k % framesPerWord = i % framesPerWord := by
    simp only [framesPerWord] at *
    omega
  simp only [used, stored, update_apply, index]
  by_cases same : k / framesPerWord = wi
  · simp [same, bits _ place]
    rfl
  · simp only [same, false_and, if_false, Vector.getElem_set_ne _ _ (Ne.symm same)]

/-- `alloc_frame` returns the lowest clear frame and sets its bit. -/
theorem allocFrame_firstClear (allocated : a.allocFrame = some (addr, a')) :
    ∃ i, i < capacity N ∧ FirstClear a.used i ∧ addr = a.base + i * frameBytes ∧
      a'.base = a.base ∧ a'.used = update a.used i true ∧
      a'.freeFrames = a.freeFrames - 1 := by
  unfold allocFrame at allocated
  split at allocated
  · cases allocated
  rename_i wi found
  obtain ⟨notFull, n, inList, stop, earlier⟩ := find?_eq_some_iff_getElem.mp found
  obtain ⟨inWord, clear, lower⟩ := trailingOnes_clear (by simpa using notFull)
  generalize trailingOnes a.bitmap[wi] = bit at allocated inWord clear lower
  cases allocated
  have position : n = wi.val := by
    rw [← stop]
    simp
  have parts : (wi.val * framesPerWord + bit) / framesPerWord = wi.val ∧
      (wi.val * framesPerWord + bit) % framesPerWord = bit := by
    simp only [framesPerWord]
    omega
  refine ⟨wi * framesPerWord + bit, ?_, ⟨?_, fun j before => ?_⟩, rfl, rfl,
    used_set wi rfl parts.1 fun b below => ?_, rfl⟩
  · have := wi.isLt
    simp only [capacity, framesPerWord]
    omega
  · simpa [used, parts] using clear
  · have place : j % framesPerWord < 64 := mod_lt _ (by decide)
    rcases lt_or_ge (j / framesPerWord) wi with earlierWord | word
    · -- The words before it are full.
      have inRange := earlierWord.trans wi.isLt
      have full : a.bitmap[j / framesPerWord] = allOnes 64 := by
        simpa using earlier (j / framesPerWord) (position ▸ earlierWord)
      rw [used, dif_pos inRange, full, getLsbD_allOnes, decide_eq_true place]
    · -- The frames before it in the same word are the trailing ones.
      have same : j / framesPerWord = wi ∧ j % framesPerWord < bit := by
        simp only [framesPerWord] at *
        omega
      simpa [used, same.1] using lower _ same.2
  · rw [parts.2]
    by_cases same : b = bit
    · simp [same, inWord]
    · simp [same, getLsbD_twoPow, Ne.symm same]
      rfl

/-- The frame returned was free; it is the only one that is not free any more. -/
theorem free_allocFrame (allocated : a.allocFrame = some (addr, a'))
    (addressable : a.Addressable) :
    addr / frameBytes ∈ a.free ∧ a'.free = a.free \ {addr / frameBytes} := by
  obtain ⟨idx, -, first, rfl, base, bits, -⟩ := allocFrame_firstClear allocated
  have aligned := addressable.aligned
  have number : (a.base + idx * frameBytes) / frameBytes = a.base / frameBytes + idx := by
    simp only [frameBytes] at *
    omega
  rw [number]
  refine ⟨⟨idx, first.clear, rfl⟩, ?_⟩
  ext n
  rw [free, bits, base]
  constructor
  · rintro ⟨k, clear, rfl⟩
    rw [update_apply] at clear
    split at clear
    · cases clear
    · rename_i other
      exact ⟨⟨k, clear, rfl⟩, fun same => other (add_left_cancel same)⟩
  · rintro ⟨⟨k, clear, rfl⟩, other⟩
    refine ⟨k, ?_, rfl⟩
    rwa [update_of_ne]
    rintro rfl
    exact other rfl

theorem free_eq_empty (exhausted : a.allocFrame = none) : a.free = ∅ := by
  unfold allocFrame at exhausted
  split at exhausted
  · rename_i full
    rw [Set.eq_empty_iff_forall_notMem]
    rintro n ⟨idx, clear, -⟩
    unfold used at clear
    split at clear
    · rename_i inRange
      have word := find?_eq_none.mp full ⟨idx / framesPerWord, inRange⟩ (mem_finRange _)
      have allOnes : a.bitmap[idx / framesPerWord] = allOnes 64 := by simpa using word
      have below : idx % framesPerWord < 64 := mod_lt _ (by decide)
      rw [allOnes, getLsbD_allOnes, decide_eq_true below] at clear
      cases clear
    · cases clear
  · cases exhausted

theorem free_finite (a : BitmapFrameAllocator N) : a.free.Finite := by
  apply (Set.finite_lt_nat (a.base / frameBytes + N * framesPerWord)).subset
  rintro n ⟨idx, clear, rfl⟩
  unfold used at clear
  split at clear
  · rename_i inRange
    have below : idx < N * framesPerWord := lt_mul_of_div_lt inRange (by decide)
    exact Nat.add_lt_add_left below _
  · cases clear

variable (allocated : a.allocFrame = some (addr, a')) (addressable : a.Addressable)

include allocated addressable

theorem ncard_free_allocFrame : a'.free.ncard + 1 = a.free.ncard := by
  obtain ⟨wasFree, left⟩ := free_allocFrame allocated addressable
  rw [left]
  exact Set.ncard_sdiff_singleton_add_one wasFree a.free_finite

theorem frameAddress_allocFrame : FrameAddress addr := by
  obtain ⟨idx, below, -, rfl, -⟩ := allocFrame_firstClear allocated
  obtain ⟨aligned, bounded⟩ := addressable
  simp only [capacity, framesPerWord, frameBytes] at *
  constructor <;> omega

theorem addressable_allocFrame : a'.Addressable := by
  obtain ⟨idx, -, -, -, base, -⟩ := allocFrame_firstClear allocated
  exact ⟨base ▸ addressable.aligned, base ▸ addressable.bounded⟩

end BitmapFrameAllocator

end NexaCore.Memory
