import NexaCore.Misc.Checked

/-!
# The block allocator of NCFS

Embedding of `BlockBitmap` (`nexacore-fs/src/allocator.rs`). Block numbers start at 1; bit `i` of
the map stands for block `i + 1`, and a set bit is an allocated block. The map has a byte for
every eight blocks, so the index of a checked block number is in it.
-/

namespace NexaCore.Fs

open Misc List

/-- `byte & (1 << bit) != 0`. -/
def bitOf (byte : UInt8) (bit : Nat) : Bool := byte.toBitVec.getLsbD bit

/-- `byte | (1 << bit)`. -/
def withBit (byte : UInt8) (bit : Nat) : UInt8 := ⟨byte.toBitVec ||| BitVec.twoPow 8 bit⟩

/-- `byte & !(1 << bit)`. -/
def withoutBit (byte : UInt8) (bit : Nat) : UInt8 := ⟨byte.toBitVec &&& ~~~BitVec.twoPow 8 bit⟩

/-- `BlockBitmap` (`allocator.rs:66-73`). -/
structure BlockBitmap where
  bits : List UInt8
  totalBlocks : Nat
  freeCount : Nat
  sized : bits.length = (totalBlocks + 7) / 8

namespace BlockBitmap

/-- `self.bits[byte_idx]`. -/
def byte (b : BlockBitmap) (byteIdx : Nat) : UInt8 := b.bits.getD byteIdx 0

/-- `self.bits[byte_idx] = byte`. -/
def setByte (b : BlockBitmap) (byteIdx : Nat) (byte : UInt8) : BlockBitmap :=
  { b with
    bits := b.bits.set byteIdx byte
    sized := length_set.trans b.sized }

/-- The bytes of a map in which every block is free: the bits past `total_blocks` in the
last byte are set. -/
def freshBits (totalBlocks : Nat) : List UInt8 :=
  let byteCount := (totalBlocks + 7) / 8
  let bits := replicate byteCount 0
  let usedBits := totalBlocks % 8
  if totalBlocks % 8 ≠ 0 then
    bits.set (byteCount - 1) ⟨~~~(BitVec.twoPow 8 usedBits - 1)⟩
  else bits

theorem length_freshBits (totalBlocks : Nat) :
    (freshBits totalBlocks).length = (totalBlocks + 7) / 8 := by
  unfold freshBits
  split <;> simp

/-- `BlockBitmap::new` (`allocator.rs:98-117`). -/
def new (totalBlocks : Nat) : Checked BlockBitmap := do
  let _ ← addU64 totalBlocks 7
  return {
    bits := freshBits totalBlocks
    totalBlocks
    freeCount := totalBlocks
    sized := length_freshBits totalBlocks }

/-- `count_free_bits` (`allocator.rs:393-403`). -/
def countFreeBits (bits : List UInt8) (totalBlocks : Nat) : Nat :=
  (range totalBlocks).countP fun idx =>
    decide (idx / 8 < bits.length) && !bitOf (bits.getD (idx / 8) 0) (idx % 8)

/-- `BlockBitmap::from_bytes` (`allocator.rs:145-160`). -/
def fromBytes (bytes : List UInt8) (totalBlocks : Nat) : Checked (Option BlockBitmap) := do
  let _ ← addU64 totalBlocks 7
  if enough : (totalBlocks + 7) / 8 ≤ bytes.length then
    let bits := bytes.take ((totalBlocks + 7) / 8)
    return some {
      bits
      totalBlocks
      freeCount := countFreeBits bits totalBlocks
      sized := length_take_of_le enough }
  else return none

/-- The lowest clear bit of a byte that is not full (`allocator.rs:193-200`). -/
def clearIn (b : BlockBitmap) (byteIdx : Nat) : Option (Nat × Nat) :=
  if b.byte byteIdx = 0xff then none
  else ((range 8).find? fun bit => !bitOf (b.byte byteIdx) bit).map (byteIdx, ·)

/-- `allocate` (`allocator.rs:187-216`). -/
def allocate (b : BlockBitmap) : Option (Nat × BlockBitmap) :=
  if b.freeCount = 0 then none
  else
    match (range b.bits.length).findSome? b.clearIn with
    | none => none
    | some (byteIdx, bitIdx) =>
        let blockIdx := byteIdx * 8 + bitIdx
        if blockIdx ≥ b.totalBlocks then none
        else
          some (blockIdx + 1,
            { b.setByte byteIdx (withBit (b.byte byteIdx) bitIdx) with
              freeCount := b.freeCount - 1 })

/-- `free` (`allocator.rs:244-260`). -/
def free (b : BlockBitmap) (blockNumber : Nat) : BlockBitmap :=
  if blockNumber = 0 ∨ blockNumber > b.totalBlocks then b
  else
    let idx := blockNumber - 1
    if bitOf (b.byte (idx / 8)) (idx % 8) then
      { b.setByte (idx / 8) (withoutBit (b.byte (idx / 8)) (idx % 8)) with
        freeCount := b.freeCount + 1 }
    else b

/-- `mark_allocated` (`allocator.rs:288-299`). -/
def markAllocated (b : BlockBitmap) (blockNumber : Nat) : BlockBitmap :=
  if blockNumber = 0 ∨ blockNumber > b.totalBlocks then b
  else
    let idx := blockNumber - 1
    if bitOf (b.byte (idx / 8)) (idx % 8) then b
    else
      { b.setByte (idx / 8) (withBit (b.byte (idx / 8)) (idx % 8)) with
        freeCount := b.freeCount - 1 }

/-- `is_allocated` (`allocator.rs:353-361`). -/
def isAllocated (b : BlockBitmap) (blockNumber : Nat) : Bool :=
  if blockNumber = 0 ∨ blockNumber > b.totalBlocks then false
  else bitOf (b.byte ((blockNumber - 1) / 8)) ((blockNumber - 1) % 8)

end BlockBitmap

end NexaCore.Fs
