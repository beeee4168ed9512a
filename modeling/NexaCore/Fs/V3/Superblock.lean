import NexaCore.Misc.Attempt
import NexaCore.Fs.V3.Merkle
import NexaCore.Kernel.Elf.Format

/-!
# Block devices and the dual superblock

Embedding of the `BlockDevice` trait (`nexacore-fs/src/v3/blockdev.rs`) and of
`nexacore-fs/src/v3/superblock.rs`. A device is any type with the operations of the trait;
each returns its result with the device after it. Keyed BLAKE3 is an arbitrary function.
-/

namespace NexaCore.Fs.V3

open Misc
open Elf (leValue toLeBytes)

/-- `Block` (`v3/mod.rs:38`), `[u8; BLOCK_SIZE]`. -/
abbrev Block := Vector UInt8 blockSize

/-- `zero_block` (`v3/mod.rs:42-44`). -/
def zeroBlock : Block := Vector.replicate blockSize 0

/-- `V3Error` (`v3/mod.rs:49-64`). -/
inductive V3Error where
  | blockOutOfRange
  | io
  | corrupt
  | noValidSuperblock
  | invalidName
  | overflow
  | crypto
  deriving DecidableEq, Repr

/-- `BlockDevice` (`blockdev.rs:20-55`). -/
class BlockDevice (D : Type) where
  blockCount : D → Nat
  readBlock : D → Nat → Except V3Error Block
  writeBlock : D → Nat → Block → Except V3Error Unit × D
  flush : D → Except V3Error Unit × D
  commitRoot : D → UInt64 → Except V3Error Unit × D
  committedGeneration : D → UInt64

/-- `MAGIC` (`superblock.rs:18`): `NCFSV3\0\0`. -/
def magic : List UInt8 := [0x4e, 0x43, 0x46, 0x53, 0x56, 0x33, 0, 0]

/-- `VERSION` (`superblock.rs:20`). -/
def version : Nat := 3

/-- `MAC_LEN` (`superblock.rs:22`). -/
def macLen : Nat := 16

/-- `MAC_OFFSET` (`superblock.rs:24`). -/
def macOffset : Nat := blockSize - macLen

/-- `SLOT_A` (`superblock.rs:27`). -/
def slotA : Nat := 0

/-- `SLOT_B` (`superblock.rs:29`). -/
def slotB : Nat := 1

/-- `MacKey` (`superblock.rs:32`). -/
abbrev MacKey := Vector UInt8 32

/-- `SuperblockV3` (`superblock.rs:36-55`). -/
structure SuperblockV3 where
  generation : UInt64
  totalBlocks : UInt64
  rootDirInode : UInt64
  merkleRoot : Hash
  keyEpoch : UInt64
  freeBlocks : UInt64
  inodeCount : UInt64
  allocMapBlock : UInt64
  snapshotTableBlock : UInt64
  deriving DecidableEq

/-- `copy_from_slice` into the bytes from `off` on, if they lie in the block. -/
def putBytes (block : Block) (off : Nat) (bytes : List UInt8) : Block :=
  if off + bytes.length ≤ blockSize then
    Vector.ofFn fun i => if off ≤ i.val then bytes.getD (i.val - off) (block.get i) else block.get i
  else block

/-- `block.get(off..off + len)`. -/
def getBytes (block : Block) (off len : Nat) : Option (List UInt8) :=
  if off + len ≤ blockSize then some ((block.toList.drop off).take len) else none

/-- `put_u32` (`superblock.rs:57-61`). -/
def putU32 (block : Block) (off : Nat) (v : Nat) : Block := putBytes block off (toLeBytes 4 v)

/-- `put_u64` (`superblock.rs:63-67`). -/
def putU64 (block : Block) (off : Nat) (v : UInt64) : Block :=
  putBytes block off (toLeBytes 8 v.toNat)

/-- `get_u32` (`superblock.rs:69-73`). -/
def getU32 (block : Block) (off : Nat) : Option Nat := (getBytes block off 4).map leValue

/-- `get_u64` (`superblock.rs:75-79`). -/
def getU64 (block : Block) (off : Nat) : Option UInt64 :=
  (getBytes block off 8).map fun bytes => UInt64.ofNat (leValue bytes)

/-- `try_into` an array of 32 bytes. -/
def toHash (bytes : List UInt8) : Option Hash :=
  if length : bytes.length = hashLen then some ⟨bytes.toArray, length⟩ else none

variable (keyedHash : MacKey → List UInt8 → Hash)

/-- `self_mac` (`superblock.rs:81-86`). -/
def selfMac (block : Block) (key : MacKey) : List UInt8 :=
  (keyedHash key ((getBytes block 0 macOffset).getD [])).toList.take macLen

namespace SuperblockV3

/-- The bytes that `encode` authenticates. -/
def encodeFields (sb : SuperblockV3) : Block :=
  let b := putBytes zeroBlock 0 magic
  let b := putU32 b 8 version
  let b := putU32 b 12 blockSize
  let b := putU64 b 16 sb.generation
  let b := putU64 b 24 sb.totalBlocks
  let b := putU64 b 32 sb.rootDirInode
  let b := putBytes b 40 sb.merkleRoot.toList
  let b := putU64 b 72 sb.keyEpoch
  let b := putU64 b 80 sb.freeBlocks
  let b := putU64 b 88 sb.inodeCount
  let b := putU64 b 96 sb.allocMapBlock
  putU64 b 104 sb.snapshotTableBlock

/-- `SuperblockV3::encode` (`superblock.rs:92-115`). -/
def encode (sb : SuperblockV3) (key : MacKey) : Block :=
  putBytes sb.encodeFields macOffset (selfMac keyedHash sb.encodeFields key)

/-- The fields that `decode` reads from an authenticated block. -/
def decodeFields (block : Block) : Option SuperblockV3 := do
  let merkleRoot ← (getBytes block 40 32).bind toHash
  let generation ← getU64 block 16
  let totalBlocks ← getU64 block 24
  let rootDirInode ← getU64 block 32
  let keyEpoch ← getU64 block 72
  let freeBlocks ← getU64 block 80
  let inodeCount ← getU64 block 88
  let allocMapBlock ← getU64 block 96
  let snapshotTableBlock ← getU64 block 104
  pure
    { generation, totalBlocks, rootDirInode, merkleRoot, keyEpoch, freeBlocks, inodeCount,
      allocMapBlock, snapshotTableBlock }

/-- `SuperblockV3::decode` (`superblock.rs:123-151`). -/
def decode (block : Block) (key : MacKey) : Except V3Error SuperblockV3 :=
  if getBytes block 0 8 ≠ some magic then .error .corrupt
  else if getU32 block 8 ≠ some version then .error .corrupt
  else if getBytes block macOffset macLen ≠ some (selfMac keyedHash block key) then .error .corrupt
  else match decodeFields block with
    | some sb => .ok sb
    | none => .error .corrupt

/-- `SuperblockV3::slot_for_generation` (`superblock.rs:154-157`). -/
def slotForGeneration (generation : UInt64) : Nat := (generation &&& 1).toNat

end SuperblockV3

variable {D : Type} [BlockDevice D]

/-- `superblock::commit` (`superblock.rs:164-172`). -/
def commit (dev : D) (sb : SuperblockV3) (key : MacKey) : Except V3Error Unit × D :=
  andThen (BlockDevice.writeBlock dev (SuperblockV3.slotForGeneration sb.generation)
    (sb.encode keyedHash key)) fun _ dev =>
  andThen (BlockDevice.flush dev) fun _ dev =>
  BlockDevice.commitRoot dev sb.generation

/-- One turn of the loop of `mount`. -/
def mountSlot (dev : D) (key : MacKey) (best : Option SuperblockV3) (slot : Nat) :
    Except V3Error (Option SuperblockV3) := do
  let block ← BlockDevice.readBlock dev slot
  match SuperblockV3.decode keyedHash block key with
  | .ok sb => pure (if best.all fun b => b.generation < sb.generation then some sb else best)
  | .error _ => pure best

/-- `superblock::mount` (`superblock.rs:179-192`). -/
def mount (dev : D) (key : MacKey) : Except V3Error SuperblockV3 := do
  let best ← [slotA, slotB].foldlM (mountSlot keyedHash dev key) none
  match best with
  | some sb => .ok sb
  | none => .error .noValidSuperblock

end NexaCore.Fs.V3
