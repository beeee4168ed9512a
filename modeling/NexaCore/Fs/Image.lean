import NexaCore.Fs.Volume

/-!
# The NCFS volume image

Embedding of `sync_to_bytes` and `mount` (`nexacore-fs/src/ondisk.rs`). The image of a
volume has the superblock in block 0, the bitmap in block 1, the inode table in block 2,
the data blocks from block 3 on and the integrity tags in the last block. A slice that
leaves the buffer is a panic (`Checked`).
-/

namespace NexaCore.Fs

open Misc Std
open Elf (leValue toLeBytes)

/-- `&raw[start..stop]`. -/
def sliceRange (raw : List UInt8) (start stop : Nat) : Checked (List UInt8) :=
  if start ≤ stop ∧ stop ≤ raw.length then some ((raw.drop start).take (stop - start)) else none

/-- `out[start..start + bytes.len()].copy_from_slice(bytes)`. -/
def copyInto (out : List UInt8) (start : Nat) (bytes : List UInt8) : Checked (List UInt8) :=
  if start + bytes.length ≤ out.length then
    some (out.take start ++ bytes ++ out.drop (start + bytes.length))
  else none

/-! ## Writing the image -/

/-- The fields of the superblock in their order (`ondisk.rs:1291-1299`). -/
def superblockBytes (sb : Superblock) : List UInt8 :=
  sb.magic ++ toLeBytes 4 sb.version ++ toLeBytes 4 sb.blockSize ++ toLeBytes 8 sb.totalBlocks ++
  toLeBytes 8 sb.freeBlocks ++ toLeBytes 8 sb.inodeCount ++ toLeBytes 8 sb.rootInode ++
  toLeBytes 8 sb.createdAt ++ toLeBytes 8 sb.aeadKeyId

def integrityEntry (blockNum : Nat) (tag : Tag) : List UInt8 := toLeBytes 8 blockNum ++ tag.toList

/-- What `write_integrity_tags` (`ondisk.rs:1615-1629`) writes: the entries that fit. -/
def integrityBytes (tags : ExtTreeMap Nat Tag) : List UInt8 :=
  (tags.toList.take integrityEntriesPerBlock).flatMap fun entry => integrityEntry entry.1 entry.2

namespace OnDiskVolume

/-- `block_num_to_physical` (`ondisk.rs:1262-1270`). -/
def blockNumToPhysical (v : OnDiskVolume) (blockNum : Nat) : Nat :=
  ((v.dataBlocks.keys.findIdx? (· == blockNum)).map (3 + ·)).getD 0

/-- One turn of the loop over the data blocks (`ondisk.rs:562-572`). -/
def writeDataBlock (v : OnDiskVolume) (total : Nat) (out : List UInt8)
    (entry : Nat × List UInt8) : Checked (List UInt8) :=
  let phys := v.blockNumToPhysical entry.1
  if phys > 0 ∧ phys < total - 1 then
    copyInto out (phys * blockSize) (entry.2.take (min entry.2.length blockSize))
  else some out

/-- `sync_to_bytes` (`ondisk.rs:528-585`). -/
def syncToBytes (v : OnDiskVolume) : Checked (Except FsError (List UInt8)) := do
  if v.bitmap.bits.length > blockSize then return .error .metadataOverflow
  let inodeBytes := serializeInodes v.inodes v.pathMap
  if inodeBytes.length > blockSize then return .error .metadataOverflow
  if v.integrityTags.size > integrityEntriesPerBlock then return .error .metadataOverflow
  let total := v.superblock.totalBlocks
  let out := List.replicate (total * blockSize) 0
  -- Block 0 must be there before its fields are written.
  let _ ← sliceRange out 0 blockSize
  let out ← copyInto out 0 (superblockBytes v.superblock)
  let out ← if total > 1 then copyInto out blockSize v.bitmap.bits else some out
  let out ← if total > 2 then copyInto out (2 * blockSize) inodeBytes else some out
  let out ← if total > 4 then v.dataBlocks.toList.foldlM (v.writeDataBlock total) out else some out
  let out ←
    if total ≥ 1 then copyInto out ((total - 1) * blockSize) (integrityBytes v.integrityTags)
    else some out
  return .ok out

end OnDiskVolume

/-! ## Reading the image -/

/-- The little-endian field of `width` bytes at `start` of a block that is long enough. -/
def leField (block : List UInt8) (start width : Nat) : Nat :=
  leValue ((block.drop start).take width)

/-- `parse_superblock` (`ondisk.rs:1312-1379`). -/
def parseSuperblock (block : List UInt8) : Except FsError Superblock :=
  if block.length < 64 then .error .integrityViolation
  else if block.take 8 ≠ fsMagic then .error .integrityViolation
  else if leField block 8 4 ≠ fsVersion then .error .integrityViolation
  else .ok {
    magic := block.take 8
    version := leField block 8 4
    blockSize := leField block 12 4
    totalBlocks := leField block 16 8
    freeBlocks := leField block 24 8
    inodeCount := leField block 32 8
    rootInode := leField block 40 8
    createdAt := leField block 48 8
    aeadKeyId := leField block 56 8 }

/-- The loop of `deserialize_integrity_tags` (`ondisk.rs:1636-1652`) over the entries that
fit in the block. -/
def deserializeTags : Nat → List UInt8 → ExtTreeMap Nat Tag → ExtTreeMap Nat Tag
  | 0, _, tags => tags
  | entries + 1, block, tags =>
      let blockNum := leField block 0 8
      if blockNum = 0 then tags
      else
        let tag := Vector.ofFn fun i => block.getD (8 + i) 0
        deserializeTags entries (block.drop integrityEntrySize) (tags.insert blockNum tag)

/-- `deserialize_integrity_tags` (`ondisk.rs:1636-1652`). -/
def deserializeIntegrityTags (block : List UInt8) : ExtTreeMap Nat Tag :=
  deserializeTags (block.length / integrityEntrySize) block ∅

/-- The loop of `deserialize_data_blocks` (`ondisk.rs:1596-1604`) over the allocated blocks. -/
def deserializeBlocks (raw : List UInt8) (dataEnd : Nat) :
    List Nat → Nat → ExtTreeMap Nat (List UInt8) → ExtTreeMap Nat (List UInt8)
  | [], _, result => result
  | blockNum :: rest, bytePos, result =>
      if bytePos + blockSize ≤ dataEnd then
        deserializeBlocks raw dataEnd rest (bytePos + blockSize)
          (result.insert blockNum ((raw.drop bytePos).take blockSize))
      else result

/-- `deserialize_data_blocks` (`ondisk.rs:1582-1606`). The caller has compared `data_end`
with the length of the buffer. -/
def deserializeDataBlocks (raw : List UInt8) (dataStart dataEnd : Nat) (bitmap : BlockBitmap)
    (totalBlocks : Nat) : ExtTreeMap Nat (List UInt8) :=
  deserializeBlocks raw dataEnd
    ((List.range' 3 (totalBlocks - 3)).filter bitmap.isAllocated) dataStart ∅

/-- `OnDiskVolume::mount` (`ondisk.rs:346-406`). -/
def OnDiskVolume.mount (raw : List UInt8) : Checked (Except FsError OnDiskVolume) := do
  if raw.length < blockSize then return .error .integrityViolation
  match parseSuperblock (raw.take blockSize) with
  | .error err => return .error err
  | .ok sb =>
      let total := sb.totalBlocks
      let bytes ← mulU64 total blockSize
      if raw.length < bytes then return .error .integrityViolation
      match ← BlockBitmap.fromBytes
        (← sliceRange raw blockSize (min (blockSize + blockSize) raw.length)) total with
      | none => return .error .integrityViolation
      | some bitmap =>
          let table ← deserializeInodes
            (← sliceRange raw (2 * blockSize) (min (2 * blockSize + blockSize) raw.length))
          let integrityTags :=
            if total ≥ 1 ∧ (total - 1) * blockSize + blockSize ≤ raw.length then
              deserializeIntegrityTags ((raw.drop ((total - 1) * blockSize)).take blockSize)
            else ∅
          let dataBlocks :=
            if total > 4 then
              deserializeDataBlocks raw (3 * blockSize) ((total - 1) * blockSize) bitmap total
            else ∅
          return .ok {
            superblock := sb
            bitmap
            inodes := table.inodes
            pathMap := table.pathMap
            dataBlocks
            integrityTags
            nextInode := table.nextInode }

end NexaCore.Fs
