import NexaCore.Kernel.Memory.Proofs.AllocatorRuns

/-!
# Ranges of frames

Which frames `mark_range_free` and `mark_range_used` mean. Both round the start of the range down
to a frame, so the frames are those of the shifted range; a range beyond the last frame has no
effect.
-/

namespace NexaCore.Memory.BitmapFrameAllocator

variable {N : Nat} {a : BitmapFrameAllocator N}

/-- The frame `i` lies in the `len` bytes from the address `start`. -/
def Within (a : BitmapFrameAllocator N) (i start len : Nat) : Prop :=
  start ≤ a.base + i * frameBytes ∧ a.base + i * frameBytes + frameBytes ≤ start + len

/-- The range from `start` frees only frames that lie in the `size` bytes from `origin`, and takes
every frame that meets them. -/
structure Conservative (a : BitmapFrameAllocator N) (start size origin : Nat) : Prop where
  freed : ∀ a', a.markRangeFree start size = some a' → ∀ i, a.used i = true → a'.used i = false →
    a.Within i origin size ∧ i < capacity N
  covered : ∀ i, i < capacity N → a.Meets i origin size → (a.markRangeUsed start size).used i = true

def Ignores (a : BitmapFrameAllocator N) (addr : Nat) : Prop :=
  (∀ size, a.markRangeFree addr size = some a) ∧ (∀ size, a.markRangeUsed addr size = a) ∧
    a.freeFrame addr = some (false, a)

theorem conservative_of_le {start : Nat} (size : Nat) (aligned : a.base % frameBytes = 0)
    (fits : capacity N < 2 ^ 64) (above : a.base ≤ start) :
    a.Conservative start size (start / frameBytes * frameBytes) := by
  obtain ⟨first, rounded⟩ : ∃ first, a.frameIdx (start / frameBytes * frameBytes) = first ∧
      start / frameBytes * frameBytes = a.base + first * frameBytes := by
    refine ⟨_, rfl, ?_⟩
    simp only [frameIdx, frameBytes] at aligned ⊢
    omega
  refine ⟨fun a' freed i before after => ?_, fun i below meets => ?_⟩
  · have changed : a'.used i ≠ a.used i := by
      rw [before, after]
      decide
    obtain ⟨below, listed, -⟩ := mem_frames_of_ne (e := .markRangeFree start size) freed changed
    rw [frames, frameRange, rounded.1, List.mem_range'_1] at listed
    rw [Within, rounded.2]
    refine ⟨?_, below⟩
    simp only [frameBytes] at listed ⊢
    omega
  · refine (rewrites_useLoop _ _).listed i below (List.mem_range'_1.mpr ?_)
    rw [Meets, rounded.2] at meets
    rw [rounded.1]
    simp only [frameBytes, u64Max] at meets ⊢
    omega

theorem ignores_of_le {addr : Nat} (aligned : a.base % frameBytes = 0)
    (beyond : a.base + capacity N * frameBytes ≤ addr) : a.Ignores addr := by
  have past : ∀ addr', addr / frameBytes * frameBytes ≤ addr' → ¬a.frameIdx addr' < capacity N := by
    intro addr' later
    simp only [frameIdx, frameBytes] at *
    omega
  refine ⟨fun size => ?_, fun size => ?_, ?_⟩
  · exact freeLoop_beyond (past _ le_rfl)
  · exact useLoop_beyond (past _ le_rfl)
  · simp only [freeFrame, past _ (Nat.div_mul_le_self _ _), dite_false, ite_self]

/-- In every state whose base is the address of a frame, a range from an address at or above the
base means the frames of the range from that address rounded down; an address beyond the
last frame is ignored. -/
theorem ranges_conservative (N : Nat) (fits : capacity N < 2 ^ 64) (a : BitmapFrameAllocator N)
    (aligned : a.base % frameBytes = 0) (addr size : Nat) :
    (a.base ≤ addr → a.Conservative addr size (addr / frameBytes * frameBytes)) ∧
      (a.base + capacity N * frameBytes ≤ addr → a.Ignores addr) :=
  ⟨conservative_of_le size aligned fits, ignores_of_le aligned⟩

/-- Frames 1 and 2 are freed through an unaligned start, and frame 2 is taken back. -/
theorem ranges_conservative_unaligned :
    ∃ a : BitmapFrameAllocator 1, (new 0x100000).markRangeFree 0x101800 0x2fff = some a ∧
      a.used 2 = false ∧ (new 0x100000 : BitmapFrameAllocator 1).Within 2 0x101000 0x2fff ∧
      a.Meets 2 0x101000 0x1001 ∧ (a.markRangeUsed 0x101800 0x1001).used 2 = true ∧
      a.Ignores 0x140000 := by
  have fresh := ranges_conservative 1 (by decide) (new 0x100000) rfl 0x101800 0x2fff
  obtain ⟨a, freed, located, clear⟩ : ∃ a : BitmapFrameAllocator 1,
      (new 0x100000).markRangeFree 0x101800 0x2fff = some a ∧ a.base = 0x100000 ∧
        a.used 2 = false := ⟨_, rfl, rfl, rfl⟩
  have taken := ranges_conservative 1 (by decide) a (by rw [located]; rfl) 0x101800 0x1001
  have beyond := ranges_conservative 1 (by decide) a (by rw [located]; rfl) 0x140000 0
  have meets : a.Meets 2 0x101000 0x1001 := by rw [Meets, located]; decide
  have above : a.base ≤ 0x101800 := by rw [located]; decide
  refine ⟨a, freed, clear, ((fresh.1 (by decide)).freed a freed 2 rfl clear).1, meets,
    (taken.1 above).covered 2 (by decide) meets, beyond.2 ?_⟩
  rw [located]
  decide

/-- A range that starts inside a frame frees that frame and leaves its last frame unused, and
`free_frame` below the base frees the frame at the base. -/
theorem ranges_not_conservative :
    (∃ a' : BitmapFrameAllocator 1, (new 0).markRangeFree 0x1800 0x1000 = some a' ∧
      (new 0 : BitmapFrameAllocator 1).used 1 = true ∧ a'.used 1 = false ∧
      ¬(new 0 : BitmapFrameAllocator 1).Within 1 0x1800 0x1000) ∧
    (∃ a : BitmapFrameAllocator 1, (new 0).markRangeFree 0 0x4000 = some a ∧
      a.Meets 2 0x1800 0x1000 ∧ (a.markRangeUsed 0x1800 0x1000).used 2 = false) ∧
    ∃ a' : BitmapFrameAllocator 1, (new 0x100000).freeFrame 0 = some (true, a') := by
  refine ⟨⟨_, rfl, rfl, rfl, ?_⟩, ⟨_, rfl, by decide, rfl⟩, ⟨_, rfl⟩⟩
  unfold Within
  decide

end NexaCore.Memory.BitmapFrameAllocator
