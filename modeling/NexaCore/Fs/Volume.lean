import NexaCore.Fs.Allocator
import NexaCore.Fs.InodeTable

/-!
# The NCFS volume

Embedding of `OnDiskVolume` (`nexacore-fs/src/ondisk.rs`) and of the tag check
(`nexacore-fs/src/integrity.rs`): formatting, the file and directory operations and the
consistency checker. A call returns its result and the volume after it. The AEAD tag of
a block is an arbitrary function of the block number and the data. Subtractions and
slices that panic outside their range are `Checked`.
-/

namespace NexaCore.Fs

open Misc Std

/-- `NEXACORE_FS_MAGIC` (`lib.rs:97`): `OMNIFS01`. -/
def fsMagic : List UInt8 := [0x4f, 0x4d, 0x4e, 0x49, 0x46, 0x53, 0x30, 0x31]

/-- `NEXACORE_FS_VERSION` (`lib.rs:111`). -/
def fsVersion : Nat := 2

/-- `TAG_LEN` (`integrity.rs:52`). -/
def tagLen : Nat := 16

/-- `INTEGRITY_ENTRY_SIZE` (`ondisk.rs:57`). -/
def integrityEntrySize : Nat := 8 + tagLen

/-- `INTEGRITY_ENTRIES_PER_BLOCK` (`ondisk.rs:66`). -/
def integrityEntriesPerBlock : Nat := blockSize / integrityEntrySize

/-- `MAX_V1_TOTAL_BLOCKS` (`ondisk.rs:75`). -/
def maxV1TotalBlocks : Nat := blockSize * 8

/-- `INODE_RECORD_FIXED_LEN` (`ondisk.rs:85`). -/
def inodeRecordFixedLen : Nat := 58

/-- The tag of a block, `[u8; TAG_LEN]`. -/
abbrev Tag := Vector UInt8 tagLen

/-- `Superblock` (`lib.rs:251-276`). -/
structure Superblock where
  magic : List UInt8
  version : Nat
  blockSize : Nat
  totalBlocks : Nat
  freeBlocks : Nat
  inodeCount : Nat
  rootInode : Nat
  createdAt : Nat
  aeadKeyId : Nat
  deriving DecidableEq, Repr

/-- `FileMetadata` (`lib.rs:412-426`). -/
structure FileMetadata where
  size : Nat
  blockCount : Nat
  created : Nat
  modified : Nat
  deriving DecidableEq, Repr

/-- `OnDiskVolume` (`ondisk.rs:218-235`). The key is always `BlockKey::zeroed()`; it is a
part of the tag function. -/
structure OnDiskVolume where
  superblock : Superblock
  bitmap : BlockBitmap
  inodes : ExtTreeMap Nat Inode
  pathMap : ExtTreeMap String Nat
  dataBlocks : ExtTreeMap Nat (List UInt8)
  integrityTags : ExtTreeMap Nat Tag
  nextInode : Nat

/-- `compute_tag` with the key of the volume. -/
abbrev TagFunction := Nat → List UInt8 → Tag

/-- `verify_tag` (`integrity.rs:221-241`). -/
def verifyTag (computeTag : TagFunction) (blockNumber : Nat) (blockData : List UInt8)
    (storedTag : Tag) : Except FsError Unit :=
  let expected := computeTag blockNumber blockData
  let diff : UInt8 := (expected.toList.zip storedTag.toList).foldl
    (fun diff pair => diff ||| (pair.1 ^^^ pair.2)) 0
  if diff = 0 then .ok () else .error .integrityViolation

namespace OnDiskVolume

/-- `OnDiskVolume::format` (`ondisk.rs:259-319`). -/
def format (totalBlocks : Nat) : Checked OnDiskVolume := do
  let bitmap ← BlockBitmap.new totalBlocks
  let bitmap := (bitmap.allocate.map Prod.snd).getD bitmap
  let bitmap := (bitmap.allocate.map Prod.snd).getD bitmap
  let bitmap := bitmap.markAllocated totalBlocks
  return {
    superblock := {
      magic := fsMagic
      version := fsVersion
      blockSize := 4096
      totalBlocks
      freeBlocks := bitmap.freeCount
      inodeCount := 1
      rootInode := rootInodeNumber
      createdAt := 0
      aeadKeyId := 0 }
    bitmap
    inodes := (∅ : ExtTreeMap Nat Inode).insert rootInodeNumber rootInode
    pathMap := (∅ : ExtTreeMap String Nat).insert "/" rootInodeNumber
    dataBlocks := ∅
    integrityTags := ∅
    nextInode := firstUserInode }

/-- `serialized_inode_table_len` (`ondisk.rs:1253-1255`). -/
def serializedInodeTableLen (v : OnDiskVolume) : Nat := (serializeInodes v.inodes v.pathMap).length

/-! ## Creation -/

/-- `create_file` and `create_directory`, which differ in the type of the new inode. -/
def create (v : OnDiskVolume) (fileType : FileType) (path : String) :
    Except FsError Nat × OnDiskVolume :=
  if byteLen path > maxPathLen then (.error .pathTooLong, v)
  else if path ∈ v.pathMap then (.error .fileAlreadyExists, v)
  else if v.serializedInodeTableLen + inodeRecordFixedLen + byteLen path > blockSize then
    (.error .metadataOverflow, v)
  else
    let inodeNumber := v.nextInode
    let inode : Inode := {
      inodeNumber
      fileType
      size := 0
      blockCount := 0
      created := 0
      modified := 0
      blocks := []
      name := basename path }
    (.ok inodeNumber, { v with
      nextInode := (v.nextInode + 1) % 2 ^ 64
      inodes := v.inodes.insert inodeNumber inode
      pathMap := v.pathMap.insert path inodeNumber
      superblock := { v.superblock with
        inodeCount := (v.superblock.inodeCount + 1) % 2 ^ 64 } })

/-- `create_file` (`ondisk.rs:612-645`). -/
def createFile (v : OnDiskVolume) (path : String) : Except FsError Nat × OnDiskVolume :=
  v.create .regularFile path

/-- `create_directory` (`ondisk.rs:1007-1039`). -/
def createDirectory (v : OnDiskVolume) (path : String) : Except FsError Nat × OnDiskVolume :=
  v.create .directory path

/-! ## Writing -/

/-- The lookups at the start of the operations on a file or directory: the inode with its
number. -/
def lookup (v : OnDiskVolume) (path : String) : Except FsError (Nat × Inode) :=
  match v.pathMap[path]? with
  | none => .error .fileNotFound
  | some inodeNumber =>
      match v.inodes[inodeNumber]? with
      | none => .error .fileNotFound
      | some inode => .ok (inodeNumber, inode)

/-- The blocks that a write touches (`ondisk.rs:706-708`). -/
structure Extent where
  offset : Nat
  endOffset : Nat
  deriving DecidableEq, Repr

namespace Extent

/-- The extent of `data` written at `offset`, whose end saturates. -/
def ofWrite (offset : Nat) (data : List UInt8) : Extent :=
  ⟨offset, min (offset + data.length) u64Max⟩

/-- `first_block_idx`. -/
def first (e : Extent) : Nat := e.offset / blockSize

/-- `last_block_idx`. -/
def last (e : Extent) : Nat := (e.endOffset - 1) / blockSize

/-- `first_block_idx..=last_block_idx`. -/
def blockIdxs (e : Extent) : List Nat := List.range' e.first (e.last + 1 - e.first)

/-- `write_start` and, in `read_file`, `block_start`. -/
def blockStart (e : Extent) (blkIdx : Nat) : Nat :=
  if blkIdx = e.first then e.offset % blockSize else 0

/-- `write_end` and, in `read_file`, `block_end`. -/
def blockEnd (e : Extent) (blkIdx : Nat) : Nat :=
  if blkIdx = e.last then (e.endOffset - 1) % blockSize + 1 else blockSize

end Extent

/-- `inode_growth` (`ondisk.rs:724-725`). -/
def inodeGrowth (oldBlocks : List Nat) (e : Extent) : Nat :=
  (max oldBlocks.length (e.last + 1) - oldBlocks.length) * 8

/-- `new_tag_entries` (`ondisk.rs:731-733`). -/
def newTagEntries (oldBlocks : List Nat) (e : Extent) : Nat :=
  e.blockIdxs.countP fun idx => decide (oldBlocks.getD idx 0 = 0)

/-- The allocation loop (`ondisk.rs:739-743`): the new blocks by block index, or `none` if
the map ran out of blocks. Either way the map keeps what was allocated. -/
def allocateBlocks : List Nat → BlockBitmap → Option (List (Nat × Nat)) × BlockBitmap
  | [], bitmap => (some [], bitmap)
  | blkIdx :: rest, bitmap =>
      match bitmap.allocate with
      | none => (none, bitmap)
      | some (newBlk, bitmap) =>
          let (newBlocks, bitmap) := allocateBlocks rest bitmap
          (newBlocks.map ((blkIdx, newBlk) :: ·), bitmap)

/-- The old contents of a block, or zeros (`ondisk.rs:762-776`). -/
def seedBlock (v : OnDiskVolume) (oldBlocks : List Nat) (blkIdx : Nat) : List UInt8 :=
  let zeros := List.replicate blockSize 0
  let blockData :=
    match oldBlocks[blkIdx]? with
    | some oldBlk => if oldBlk ≠ 0 then v.dataBlocks[oldBlk]?.getD zeros else zeros
    | none => zeros
  blockData ++ List.replicate (blockSize - blockData.length) 0

/-- One turn of the loop that fills the new blocks (`ondisk.rs:748-789`), on the volume and
the number of bytes written. -/
def fillBlock (computeTag : TagFunction) (oldBlocks : List Nat) (data : List UInt8) (e : Extent)
    (state : OnDiskVolume × Nat) (newBlock : Nat × Nat) : Checked (OnDiskVolume × Nat) :=
  let (v, bytesWritten) := state
  let (blkIdx, newBlk) := newBlock
  let writeStart := e.blockStart blkIdx
  let writeEnd := e.blockEnd blkIdx
  let blockData := v.seedBlock oldBlocks blkIdx
  let len := writeEnd - writeStart
  if writeStart ≤ writeEnd ∧ bytesWritten + len ≤ data.length ∧ writeEnd ≤ blockData.length then
    let blockData := blockData.take writeStart ++ (data.drop bytesWritten).take len ++
      blockData.drop writeEnd
    some ({ v with
      integrityTags := v.integrityTags.insert newBlk (computeTag newBlk blockData)
      dataBlocks := v.dataBlocks.insert newBlk blockData }, bytesWritten + len)
  else none

/-- The new block pointers (`ondisk.rs:799-805`). -/
def setPointers (blocks : List Nat) (newBlocks : List (Nat × Nat)) (e : Extent) : List Nat :=
  newBlocks.foldl (fun blocks newBlock => blocks.set newBlock.1 newBlock.2)
    (blocks ++ List.replicate (e.last + 1 - blocks.length) 0)

/-- The inode after a write (`ondisk.rs:792-811`). -/
def updateInode (inode : Inode) (newBlocks : List (Nat × Nat)) (e : Extent) : Inode :=
  let blocks := setPointers inode.blocks newBlocks e
  { inode with
    blocks
    blockCount := blocks.countP (· ≠ 0) % 2 ^ 32
    size := if e.endOffset > inode.size then e.endOffset else inode.size }

/-- Dropping a block, unless it is the pointer 0 of a hole. -/
def releaseBlock (v : OnDiskVolume) (blockNum : Nat) : OnDiskVolume :=
  if blockNum ≠ 0 then
    { v with
      dataBlocks := v.dataBlocks.erase blockNum
      integrityTags := v.integrityTags.erase blockNum
      bitmap := v.bitmap.free blockNum }
  else v

/-- `write_file` (`ondisk.rs:684-828`). -/
def writeFile (computeTag : TagFunction) (v : OnDiskVolume) (path : String) (offset : Nat)
    (data : List UInt8) : Checked (Except FsError Nat × OnDiskVolume) :=
  match v.lookup path with
  | .error err => some (.error err, v)
  | .ok (inodeNumber, inode) =>
      if inode.fileType ≠ .regularFile then some (.error .notAFile, v)
      else if data = [] then some (.ok 0, v)
      else
        let e := Extent.ofWrite offset data
        let oldBlocks := inode.blocks
        if v.serializedInodeTableLen + inodeGrowth oldBlocks e > blockSize then
          some (.error .metadataOverflow, v)
        else if v.integrityTags.size + newTagEntries oldBlocks e > integrityEntriesPerBlock then
          some (.error .metadataOverflow, v)
        else
          match allocateBlocks e.blockIdxs v.bitmap with
          | (none, bitmap) => some (.error .noSpace, { v with bitmap })
          | (some newBlocks, bitmap) => do
              let (v, bytesWritten) ← newBlocks.foldlM (fillBlock computeTag oldBlocks data e)
                ({ v with bitmap }, 0)
              let v := { v with
                inodes := v.inodes.insert inodeNumber (updateInode inode newBlocks e) }
              -- The old blocks are freed after the new ones are in place.
              let v := newBlocks.foldl (fun v newBlock =>
                v.releaseBlock (oldBlocks.getD newBlock.1 0)) v
              return (.ok bytesWritten, { v with
                superblock := { v.superblock with freeBlocks := v.bitmap.freeCount } })

/-! ## Reading -/

/-- The bytes that one turn of the read loop copies (`ondisk.rs:904-921`); the bytes that it
leaves are zero. -/
def readBlock (computeTag : TagFunction) (v : OnDiskVolume) (blockNum blockStart blockEnd : Nat) :
    Except FsError (List UInt8) :=
  let zeros := List.replicate (blockEnd - blockStart) 0
  if blockNum = 0 then .ok zeros
  else
    match v.dataBlocks[blockNum]? with
    | none => .ok zeros
    | some block => do
        match v.integrityTags[blockNum]? with
        | none => pure ()
        | some storedTag => verifyTag computeTag blockNum block storedTag
        let srcEnd := min blockEnd block.length
        return (block.drop blockStart).take (srcEnd - blockStart) ++
          List.replicate (blockEnd - max blockStart srcEnd) 0

/-- The loop of `read_file` (`ondisk.rs:887-922`). -/
def readBlocks (computeTag : TagFunction) (v : OnDiskVolume) (inode : Inode) (e : Extent) :
    List Nat → Except FsError (List UInt8)
  | [] => .ok []
  | blkIdx :: rest => do
      let bytes ← v.readBlock computeTag (inode.blocks.getD blkIdx 0) (e.blockStart blkIdx)
        (e.blockEnd blkIdx)
      return bytes ++ (← readBlocks computeTag v inode e rest)

/-- `read_file` (`ondisk.rs:858-925`). -/
def readFile (computeTag : TagFunction) (v : OnDiskVolume) (path : String) (offset : Nat)
    (count : UInt32) : Checked (Except FsError (List UInt8)) :=
  match v.lookup path with
  | .error err => some (.error err)
  | .ok (_, inode) =>
      if inode.fileType ≠ .regularFile then some (.error .notAFile)
      else if offset ≥ inode.size ∨ count = 0 then some (.ok [])
      else do
        let stop ← addU64 offset count.toNat
        let e : Extent := ⟨offset, min stop inode.size⟩
        return v.readBlocks computeTag inode e e.blockIdxs

/-! ## Deletion and listing -/

/-- `delete_file` (`ondisk.rs:944-975`). -/
def deleteFile (v : OnDiskVolume) (path : String) : Except FsError Unit × OnDiskVolume :=
  match v.lookup path with
  | .error err => (.error err, v)
  | .ok (inodeNumber, inode) =>
      if inode.fileType ≠ .regularFile then (.error .notAFile, v)
      else
        let v := inode.blocks.foldl releaseBlock v
        (.ok (), { v with
          inodes := v.inodes.erase inodeNumber
          pathMap := v.pathMap.erase path
          superblock := { v.superblock with
            inodeCount := v.superblock.inodeCount - 1
            freeBlocks := v.bitmap.freeCount } })

/-- The name that a candidate path has in the directory at `path` (`ondisk.rs:1169-1188`). -/
def childName (path candidate : String) : Option String :=
  let start := if path = "/" then ['/'] else path.toList ++ ['/']
  if candidate = path then none
  else if start.isPrefixOf candidate.toList then
    let suffix := candidate.toList.drop start.length
    if '/' ∈ suffix then none else some (String.ofList suffix)
  else none

/-- `list_directory` (`ondisk.rs:1155-1191`). -/
def listDirectory (v : OnDiskVolume) (path : String) : Except FsError (List String) :=
  match v.lookup path with
  | .error err => .error err
  | .ok (_, inode) =>
      if inode.fileType ≠ .directory then .error .notADirectory
      else .ok (v.pathMap.keys.filterMap (childName path))

/-- `delete_directory` (`ondisk.rs:1065-1099`). -/
def deleteDirectory (v : OnDiskVolume) (path : String) : Except FsError Unit × OnDiskVolume :=
  if path = "/" then (.error .invalidSlotName, v)
  else
    match v.lookup path with
    | .error err => (.error err, v)
    | .ok (inodeNumber, inode) =>
        if inode.fileType ≠ .directory then (.error .notADirectory, v)
        else
          match v.listDirectory path with
          | .error err => (.error err, v)
          | .ok children =>
              if children ≠ [] then (.error .directoryNotEmpty, v)
              else
                (.ok (), { v with
                  inodes := v.inodes.erase inodeNumber
                  pathMap := v.pathMap.erase path
                  superblock := { v.superblock with
                    inodeCount := v.superblock.inodeCount - 1 } })

/-- `stat_file` (`ondisk.rs:1118-1134`). -/
def statFile (v : OnDiskVolume) (path : String) : Except FsError FileMetadata :=
  match v.lookup path with
  | .error err => .error err
  | .ok (_, inode) => .ok {
      size := inode.size
      blockCount := inode.blockCount
      created := inode.created
      modified := inode.modified }

end OnDiskVolume

/-! ## The consistency checker -/

/-- `FsckError` (`ondisk.rs:105-129`). -/
inductive FsckError where
  | badMagic
  | badVersion
  | freeBlockMismatch (superblock bitmap : Nat)
  | unallocatedBlockReferenced (inodeNumber blockNumber : Nat)
  | integrityViolation (blockNumber : Nat)
  deriving DecidableEq, Repr

/-- `FsckReport` (`ondisk.rs:156-169`). -/
structure FsckReport where
  superblockValid : Bool
  bitmapConsistent : Bool
  totalBlocks : Nat
  freeBlocks : Nat
  inodeCount : Nat
  errors : List FsckError
  deriving DecidableEq, Repr

/-- `is_clean` (`ondisk.rs:190-192`). -/
def FsckReport.isClean (report : FsckReport) : Bool := report.errors.isEmpty

namespace OnDiskVolume

/-- The first check of `fsck` (`ondisk.rs:434-443`). -/
def superblockErrors (v : OnDiskVolume) : List FsckError :=
  (if v.superblock.magic ≠ fsMagic then [.badMagic] else []) ++
  (if v.superblock.version ≠ fsVersion then [.badVersion] else [])

/-- The second check of `fsck` (`ondisk.rs:446-453`). -/
def freeBlockErrors (v : OnDiskVolume) : List FsckError :=
  if v.bitmap.freeCount ≠ v.superblock.freeBlocks then
    [.freeBlockMismatch v.superblock.freeBlocks v.bitmap.freeCount]
  else []

/-- The third check of `fsck` (`ondisk.rs:456-465`). -/
def referenceErrors (v : OnDiskVolume) : List FsckError :=
  v.inodes.toList.flatMap fun entry =>
    (entry.2.blocks.filter fun blockNum => !v.bitmap.isAllocated blockNum).map
      (.unallocatedBlockReferenced entry.1 ·)

/-- The fourth check of `fsck` (`ondisk.rs:468-478`). A block without a tag passes. -/
def tagErrors (computeTag : TagFunction) (v : OnDiskVolume) : List FsckError :=
  v.dataBlocks.toList.filterMap fun entry =>
    match v.integrityTags[entry.1]? with
    | none => none
    | some storedTag =>
        match verifyTag computeTag entry.1 entry.2 storedTag with
        | .ok _ => none
        | .error _ => some (.integrityViolation entry.1)

/-- `fsck` (`ondisk.rs:430-488`). -/
def fsck (computeTag : TagFunction) (v : OnDiskVolume) : FsckReport where
  superblockValid := v.superblock.magic = fsMagic ∧ v.superblock.version = fsVersion
  bitmapConsistent := v.bitmap.freeCount = v.superblock.freeBlocks
  totalBlocks := v.superblock.totalBlocks
  freeBlocks := v.bitmap.freeCount
  inodeCount := v.superblock.inodeCount
  errors := v.superblockErrors ++ v.freeBlockErrors ++ v.referenceErrors ++ v.tagErrors computeTag

end OnDiskVolume

end NexaCore.Fs
