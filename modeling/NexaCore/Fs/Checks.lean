import NexaCore.Fs.Image

/-!
# Mounting and reading with every check

`mount` and `read_file` (`nexacore-fs/src/ondisk.rs`) with each slice and each subtraction
checked, to ask whether a call can panic; `Fs.Image` and `Fs.Volume` leave out the checks that
cannot fail. The buffers that `mount` asks for are listed with their size in bytes; the nodes of
the maps, of a fixed size below a block, are left out.
-/

namespace NexaCore.Fs

open Misc Std List
open Elf (leValue)

/-- `a - b` on unsigned integers. -/
def subChecked (a b : Nat) : Checked Nat := if b ≤ a then some (a - b) else none

/-- `from_le_bytes` of `&block[start..start + width]`. -/
def sliceField (block : List UInt8) (start width : Nat) : Checked Nat :=
  (sliceRange block start (start + width)).map leValue

/-- `parse_superblock` (`ondisk.rs:1312-1379`). -/
def parseSuperblockChecked (block : List UInt8) : Checked (Except FsError Superblock) := do
  if block.length < 64 then return .error .integrityViolation
  let magic ← sliceRange block 0 8
  if magic ≠ fsMagic then return .error .integrityViolation
  let version ← sliceField block 8 4
  if version ≠ fsVersion then return .error .integrityViolation
  let blockSize ← sliceField block 12 4
  let totalBlocks ← sliceField block 16 8
  let freeBlocks ← sliceField block 24 8
  let inodeCount ← sliceField block 32 8
  let rootInode ← sliceField block 40 8
  let createdAt ← sliceField block 48 8
  let aeadKeyId ← sliceField block 56 8
  return .ok
    { magic, version, blockSize, totalBlocks, freeBlocks, inodeCount, rootInode, createdAt,
      aeadKeyId }

/-- The loop of `deserialize_integrity_tags` (`ondisk.rs:1639-1650`) at the read position. -/
def deserializeTagsChecked : Nat → List UInt8 → ExtTreeMap Nat Tag → Checked (ExtTreeMap Nat Tag)
  | 0, _, tags => some tags
  | entries + 1, block, tags => do
      let blockNum ← sliceField block 0 8
      if blockNum = 0 then return tags
      let bytes ← sliceRange block 8 integrityEntrySize
      let tag := Vector.ofFn fun i => bytes.getD i 0
      deserializeTagsChecked entries (block.drop integrityEntrySize) (tags.insert blockNum tag)

/-- The loop of `deserialize_data_blocks` (`ondisk.rs:1596-1604`). -/
def deserializeBlocksChecked (raw : List UInt8) (dataEnd : Nat) :
    List Nat → Nat → ExtTreeMap Nat (List UInt8) → Checked (ExtTreeMap Nat (List UInt8))
  | [], _, result => some result
  | blockNum :: rest, bytePos, result =>
      if bytePos + blockSize ≤ dataEnd then do
        let blockData ← sliceRange raw bytePos (bytePos + blockSize)
        deserializeBlocksChecked raw dataEnd rest (bytePos + blockSize)
          (result.insert blockNum blockData)
      else some result

/-- The integrity tags of an image (`ondisk.rs:374-386`). -/
def restoreTagsChecked (raw : List UInt8) (total : Nat) : Checked (ExtTreeMap Nat Tag) :=
  if total ≥ 1 then do
    let start ← mulU64 (← subChecked total 1) blockSize
    let stop ← addU64 start blockSize
    if stop ≤ raw.length then
      let block ← sliceRange raw start stop
      deserializeTagsChecked (block.length / integrityEntrySize) block ∅
    else some ∅
  else some ∅

/-- The data blocks of an image (`ondisk.rs:389-395`). -/
def restoreBlocksChecked (raw : List UInt8) (bitmap : BlockBitmap) (total : Nat) :
    Checked (ExtTreeMap Nat (List UInt8)) :=
  if total > 4 then do
    let dataEnd ← mulU64 (← subChecked total 1) blockSize
    deserializeBlocksChecked raw dataEnd
      ((range' 3 (total - 3)).filter bitmap.isAllocated) (3 * blockSize) ∅
  else some ∅

namespace OnDiskVolume

/-- `OnDiskVolume::mount` (`ondisk.rs:346-406`). -/
def mountChecked (raw : List UInt8) : Checked (Except FsError OnDiskVolume) := do
  if raw.length < blockSize then return .error .integrityViolation
  match ← parseSuperblockChecked (← sliceRange raw 0 blockSize) with
  | .error err => return .error err
  | .ok sb =>
      let total := sb.totalBlocks
      let bytes ← mulU64 total blockSize
      if raw.length < bytes then return .error .integrityViolation
      match ← BlockBitmap.fromBytes
        (← sliceRange raw blockSize (min (blockSize + blockSize) raw.length)) total with
      | none => return .error .integrityViolation
      | some bitmap =>
          let table ← deserializeInodes
            (← sliceRange raw (2 * blockSize) (min (2 * blockSize + blockSize) raw.length))
          let integrityTags ← restoreTagsChecked raw total
          let dataBlocks ← restoreBlocksChecked raw bitmap total
          return .ok {
            superblock := sb
            bitmap
            inodes := table.inodes
            pathMap := table.pathMap
            dataBlocks
            integrityTags
            nextInode := table.nextInode }

/-- One turn of the loop of `read_file` (`ondisk.rs:887-922`) on the result and the number of
bytes read. -/
def readTurn (computeTag : TagFunction) (v : OnDiskVolume) (inode : Inode) (e : Extent)
    (result : List UInt8) (bytesRead blkIdx : Nat) :
    Checked (Except FsError (List UInt8 × Nat)) := do
  let blockNum := inode.blocks.getD blkIdx 0
  let blockStart := e.blockStart blkIdx
  let blockEnd := e.blockEnd blkIdx
  let copyLen ← subChecked blockEnd blockStart
  if blockNum = 0 then return .ok (result, bytesRead + copyLen)
  match v.dataBlocks[blockNum]? with
  | none => return .ok (result, bytesRead + copyLen)
  | some block =>
      match (v.integrityTags[blockNum]?).elim (.ok ()) (verifyTag computeTag blockNum block) with
      | .error err => return .error err
      | .ok () =>
          let srcEnd := min blockEnd block.length
          if blockStart < srcEnd then
            let bytes ← sliceRange block blockStart srcEnd
            let result ← copyInto result bytesRead bytes
            return .ok (result, bytesRead + copyLen)
          else return .ok (result, bytesRead + copyLen)

/-- The loop of `read_file`. -/
def readLoop (computeTag : TagFunction) (v : OnDiskVolume) (inode : Inode) (e : Extent) :
    List Nat → List UInt8 → Nat → Checked (Except FsError (List UInt8))
  | [], result, _ => some (.ok result)
  | blkIdx :: rest, result, bytesRead => do
      match ← v.readTurn computeTag inode e result bytesRead blkIdx with
      | .error err => return .error err
      | .ok (result, bytesRead) => readLoop computeTag v inode e rest result bytesRead

/-- `read_file` (`ondisk.rs:858-925`). -/
def readFileChecked (computeTag : TagFunction) (v : OnDiskVolume) (path : String) (offset : Nat)
    (count : UInt32) : Checked (Except FsError (List UInt8)) :=
  match v.lookup path with
  | .error err => some (.error err)
  | .ok (_, inode) =>
      if inode.fileType ≠ .regularFile then some (.error .notAFile)
      else if offset ≥ inode.size ∨ count = 0 then some (.ok [])
      else do
        let stop ← addU64 offset count.toNat
        let e : Extent := ⟨offset, min stop inode.size⟩
        let readLen ← subChecked e.endOffset offset
        let _ ← subChecked e.endOffset 1
        v.readLoop computeTag inode e e.blockIdxs (replicate readLen 0) 0

end OnDiskVolume

/-! ## Allocation -/

/-- The capacities that a buffer of the capacity `cap` asks for until it holds `len` elements: it
doubles, from 8 at least. -/
def growth (cap len : Nat) : List Nat :=
  if cap < len then max 8 (2 * cap) :: growth (max 8 (2 * cap)) len else []
termination_by len - cap

/-- What one turn of the inode decoder asks for: the capacity for the block pointers
(`ondisk.rs:1503`), a buffer for the bytes of the path, which grows where a replacement character
is longer than what it stands for, and the last component (`ondisk.rs:1525-1539`). -/
def inodeRequests (data : List UInt8) : List Nat :=
  if data.length < 56 then []
  else
    let blocksLen := leField data 48 8
    let rest := (takeBlocks blocksLen (data.drop 56)).2
    blocksLen * 8 ::
      if rest.length < 2 then []
      else
        let pathByteLen := leField rest 0 2
        if rest.length < 2 + pathByteLen then []
        else
          let path := fromUtf8Lossy ((rest.drop 2).take pathByteLen)
          pathByteLen :: growth pathByteLen (byteLen path) ++ [byteLen (basename path)]

/-- What the loop of the inode decoder asks for. -/
def tableRequests : Nat → List UInt8 → List Nat
  | 0, _ => []
  | count + 1, data =>
      inodeRequests data ++
        match deserializeInode data with
        | some (some (_, _, rest)) => tableRequests count rest
        | _ => []

/-- What `mount` asks for: the copy of the bitmap, the list of the data blocks, with a first
capacity of 4, and a copy of each of them (as for a volume with all blocks allocated), and the
inode table. -/
def mountRequests (raw : List UInt8) : List Nat :=
  if raw.length < blockSize then []
  else match parseSuperblock (raw.take blockSize) with
    | .error _ => []
    | .ok sb =>
        let total := sb.totalBlocks
        if 2 ^ 64 ≤ total * blockSize ∨ raw.length < total * blockSize then []
        else if min (2 * blockSize) raw.length - blockSize < (total + 7) / 8 then []
        else
          let table := (raw.drop (2 * blockSize)).take blockSize
          (total + 7) / 8 :: (4 :: growth 4 (total - 3)).map (8 * ·) ++
            (replicate (total - 4) blockSize ++
              tableRequests (leValue (table.take 8)) (table.drop 8))

end NexaCore.Fs
