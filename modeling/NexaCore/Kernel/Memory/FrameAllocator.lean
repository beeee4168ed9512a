import NexaCore.Kernel.Basic
import NexaCore.Misc.Checked

/-!
# The physical frame allocator

Embedding of `BitmapFrameAllocator` (`nexacore-kernel/src/memory.rs`). A bitmap word
is a `BitVec 64`, in which a set bit is a used frame. The counters are `u64` with
overflow checks (`Checked`).
-/

namespace NexaCore.Memory

open Misc BitVec

/-- `FRAME_BYTES` (`memory.rs:246`). -/
def frameBytes : Nat := 4096

/-- `FRAMES_PER_WORD` (`memory.rs:247`). -/
def framesPerWord : Nat := 64

/-- `BitmapFrameAllocator` (`memory.rs:234-243`). -/
structure BitmapFrameAllocator (N : Nat) where
  bitmap : Vector (BitVec 64) N
  base : Nat
  totalFrames : Nat
  freeFrames : Nat

/-- `u64::trailing_ones`. -/
def trailingOnes (word : BitVec 64) : Nat :=
  ((List.range 64).find? fun i => !word.getLsbD i).getD 64

namespace BitmapFrameAllocator

variable {N : Nat}

/-- `BitmapFrameAllocator::new` (`memory.rs:256-263`). -/
def new (base : Nat) : BitmapFrameAllocator N where
  bitmap := Vector.replicate N (allOnes 64)
  base := base
  totalFrames := 0
  freeFrames := 0

/-- `alloc_frame` (`memory.rs:318-330`): the first word with a clear bit, and the
lowest clear bit in it. -/
def allocFrame (a : BitmapFrameAllocator N) : Option (Nat × BitmapFrameAllocator N) :=
  match (List.finRange N).find? fun wi => a.bitmap[wi] ≠ allOnes 64 with
  | none => none
  | some wi =>
      let bit := trailingOnes a.bitmap[wi]
      let frameIdx := wi * framesPerWord + bit
      some (a.base + frameIdx * frameBytes,
        { a with
          bitmap := a.bitmap.set wi (a.bitmap[wi] ||| twoPow 64 bit)
          freeFrames := a.freeFrames - 1 })

/-- `alloc_frame` with its address sum, which leaves `u64` for a frame at the end of the
address space. -/
def allocFrameU64 (a : BitmapFrameAllocator N) : Checked (Option Nat × BitmapFrameAllocator N) :=
  match a.allocFrame with
  | none => some (none, a)
  | some (addr, a') => if addr < 2 ^ 64 then some (some addr, a') else none

/-- `CAPACITY` (`memory.rs:249`). -/
def capacity (N : Nat) : Nat := N * framesPerWord

/-- `frame_idx` (`memory.rs:389-391`), whose subtraction saturates. -/
def frameIdx (a : BitmapFrameAllocator N) (phys : Nat) : Nat := (phys - a.base) / frameBytes

/-- `word_bit` (`memory.rs:399-404`). -/
def wordBit (frameIdx : Nat) : Nat × Nat := (frameIdx / framesPerWord, frameIdx % framesPerWord)

theorem word_lt {i : Nat} (below : i < capacity N) : (wordBit i).1 < N :=
  Nat.div_lt_of_lt_mul (Nat.mul_comm N framesPerWord ▸ below)

/-- The test `self.bitmap[w] & (1u64 << b) != 0` for the frame `i`. -/
def testBit (a : BitmapFrameAllocator N) (i : Nat) (below : i < capacity N) : Bool :=
  (a.bitmap.get ⟨(wordBit i).1, word_lt below⟩).getLsbD (wordBit i).2

/-- `self.bitmap[w] &= !(1u64 << b)` for the frame `i`. -/
def clearBit (a : BitmapFrameAllocator N) (i : Nat) (below : i < capacity N) :
    BitmapFrameAllocator N :=
  let word := a.bitmap.get ⟨(wordBit i).1, word_lt below⟩
  { a with
    bitmap := a.bitmap.set (wordBit i).1 (word &&& ~~~twoPow 64 (wordBit i).2)
      (word_lt below) }

/-- `self.bitmap[w] |= 1u64 << b` for the frame `i`. -/
def setBit (a : BitmapFrameAllocator N) (i : Nat) (below : i < capacity N) :
    BitmapFrameAllocator N :=
  let word := a.bitmap.get ⟨(wordBit i).1, word_lt below⟩
  { a with
    bitmap := a.bitmap.set (wordBit i).1 (word ||| twoPow 64 (wordBit i).2)
      (word_lt below) }

/-- The loop of `mark_range_free` (`memory.rs:278-289`) over the frames `is`. -/
def freeLoop : List Nat → BitmapFrameAllocator N → Checked (BitmapFrameAllocator N)
  | [], a => some a
  | i :: is, a =>
      if below : i < capacity N then
        if a.testBit i below then do
          let totalFrames ← addU64 a.totalFrames 1
          let freeFrames ← addU64 a.freeFrames 1
          freeLoop is
            { a.clearBit i below with totalFrames, freeFrames }
        else freeLoop is a
      else some a

/-- The loop of `mark_range_used` (`memory.rs:302-312`) over the frames `is`. -/
def useLoop : List Nat → BitmapFrameAllocator N → BitmapFrameAllocator N
  | [], a => a
  | i :: is, a =>
      if below : i < capacity N then
        if a.testBit i below then useLoop is a
        else useLoop is { a.setBit i below with freeFrames := a.freeFrames - 1 }
      else a

/-- The range `first..first.saturating_add(count)`. -/
def frameRange (first count : Nat) : List Nat :=
  List.range' first (min (first + count) u64Max - first)

/-- `mark_range_free` (`memory.rs:270-290`). -/
def markRangeFree (a : BitmapFrameAllocator N) (start size : Nat) :
    Checked (BitmapFrameAllocator N) :=
  let aligned := start / frameBytes * frameBytes
  let first := a.frameIdx aligned
  let count := size / frameBytes
  a.freeLoop (frameRange first count)

/-- `mark_range_used` (`memory.rs:298-313`). -/
def markRangeUsed (a : BitmapFrameAllocator N) (start size : Nat) : BitmapFrameAllocator N :=
  let aligned := start / frameBytes * frameBytes
  let first := a.frameIdx aligned
  let count := (size + (frameBytes - 1)) / frameBytes
  a.useLoop (frameRange first count)

/-- `free_frame` (`memory.rs:338-357`). -/
def freeFrame (a : BitmapFrameAllocator N) (addr : Nat) : Checked (Bool × BitmapFrameAllocator N) :=
  if addr % frameBytes ≠ 0 then some (false, a)
  else
    let idx := a.frameIdx addr
    if below : idx < capacity N then
      if a.testBit idx below then do
        let freeFrames ← addU64 a.freeFrames 1
        return (true, { a.clearBit idx below with freeFrames })
      else some (false, a)
    else some (false, a)

end BitmapFrameAllocator

end NexaCore.Memory
