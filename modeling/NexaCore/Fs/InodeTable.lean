import NexaCore.Kernel.Elf.Format
import Std.Data.ExtTreeMap

/-!
# Inodes and the inode table of NCFS

The records of `nexacore-fs/src/lib.rs` and the encoder and decoder of the inode table
(`nexacore-fs/src/ondisk.rs`). A path is a `String`; its length in Rust is the length of
its UTF-8 encoding. The maps are extensional ordered maps, so that two of them with the
same entries are equal. The decoder reads with plain slices: a slice that leaves the
data is a panic (`Checked`).
-/

namespace NexaCore.Fs

open Misc Std
open Elf (leValue toLeBytes)

/-- The variants of `FsError` (`lib.rs:144-210`) that a volume returns. -/
inductive FsError where
  | invalidSlotName
  | fileAlreadyExists
  | notAFile
  | notADirectory
  | noSpace
  | pathTooLong
  | fileNotFound
  | integrityViolation
  | directoryNotEmpty
  | metadataOverflow
  deriving DecidableEq, Repr

/-- `FileType` (`lib.rs:288-295`). -/
inductive FileType where
  | regularFile
  | directory
  deriving DecidableEq, Repr

/-- The byte that encodes the type (`ondisk.rs:1414-1417`). -/
def FileType.code : FileType → UInt8
  | regularFile => 0
  | directory => 1

/-- `Inode` (`lib.rs:335-352`). -/
structure Inode where
  inodeNumber : Nat
  fileType : FileType
  size : Nat
  blockCount : Nat
  created : Nat
  modified : Nat
  blocks : List Nat
  name : String
  deriving DecidableEq, Repr

/-- `BLOCK_SIZE` (`ondisk.rs:54`). -/
def blockSize : Nat := 4096

/-- `MAX_PATH_LEN` (`lib.rs:117`). -/
def maxPathLen : Nat := 4096

/-- `ROOT_INODE_NUMBER` and `FIRST_USER_INODE` (`lib.rs:121-125`). -/
def rootInodeNumber : Nat := 1

def firstUserInode : Nat := 2

def rootInode : Inode where
  inodeNumber := rootInodeNumber
  fileType := .directory
  size := 0
  blockCount := 0
  created := 0
  modified := 0
  blocks := []
  name := "/"

/-- `str::as_bytes`. -/
def utf8Bytes (path : String) : List UInt8 := path.toList.flatMap String.utf8EncodeChar

/-- `str::len`. -/
def byteLen (path : String) : Nat := (utf8Bytes path).length

/-- `basename` (`ondisk.rs:1659-1665`). -/
def basename (path : String) : String :=
  let component := (path.toList.reverse.takeWhile (· ≠ '/')).reverse
  if component = [] ∧ '/' ∈ path.toList then "/" else String.ofList component

/-! ## Encoding -/

/-- One record of the table (`ondisk.rs:1413-1439`). -/
def serializeInode (inode : Inode) (path : String) : List UInt8 :=
  toLeBytes 8 inode.inodeNumber ++
  (inode.fileType.code :: List.replicate 7 0) ++
  toLeBytes 8 inode.size ++
  (toLeBytes 4 inode.blockCount ++ List.replicate 4 0) ++
  toLeBytes 8 inode.created ++
  toLeBytes 8 inode.modified ++
  toLeBytes 8 inode.blocks.length ++
  inode.blocks.flatMap (toLeBytes 8) ++
  toLeBytes 2 (byteLen path) ++
  utf8Bytes path

/-- The inverted path map (`ondisk.rs:1404-1407`): the last of several paths stays. -/
def inodeToPath (pathMap : ExtTreeMap String Nat) : ExtTreeMap Nat String :=
  pathMap.toList.foldl (fun m entry => m.insert entry.2 entry.1) ∅

/-- The record of an inode with its path (`ondisk.rs:1433-1437`). -/
def inodeRecord (pathMap : ExtTreeMap String Nat) (entry : Nat × Inode) : List UInt8 :=
  serializeInode entry.2 ((inodeToPath pathMap)[entry.2.inodeNumber]?.getD "/")

/-- `serialize_inodes` (`ondisk.rs:1402-1442`). -/
def serializeInodes (inodes : ExtTreeMap Nat Inode) (pathMap : ExtTreeMap String Nat) :
    List UInt8 :=
  toLeBytes 8 inodes.size ++ inodes.toList.flatMap (inodeRecord pathMap)

/-! ## Decoding -/

def isContinuation (byte : UInt8) : Bool := 0x80 ≤ byte && byte ≤ 0xbf

/-- The second bytes that may follow the first byte of a sequence of three or four. -/
def maySecond (first second : UInt8) : Bool :=
  if first = 0xe0 then 0xa0 ≤ second && second ≤ 0xbf
  else if first = 0xed then 0x80 ≤ second && second ≤ 0x9f
  else if first = 0xf0 then 0x90 ≤ second && second ≤ 0xbf
  else if first = 0xf4 then 0x80 ≤ second && second ≤ 0x8f
  else 0xe1 ≤ first && first ≤ 0xf3 && isContinuation second

/-- The bytes that one replacement character stands for: the longest start of a sequence
that could still have become a character. -/
def invalidLength : List UInt8 → Nat
  | first :: second :: third :: _ =>
      if maySecond first second then
        if 0xf0 ≤ first && isContinuation third then 3 else 2
      else 1
  | [first, second] => if maySecond first second then 2 else 1
  | _ => 1

/-- The loop of `from_utf8_lossy`; every turn consumes a byte. -/
def decodeLossy : Nat → List UInt8 → List Char
  | 0, _ => []
  | _ + 1, [] => []
  | fuel + 1, bytes@(_ :: _) =>
      match bytes.toByteArray.utf8DecodeChar? 0 with
      | some c => c :: decodeLossy fuel (bytes.drop c.utf8Size)
      | none => '�' :: decodeLossy fuel (bytes.drop (invalidLength bytes))

/-- `String::from_utf8_lossy`. -/
def fromUtf8Lossy (bytes : List UInt8) : String := String.ofList (decodeLossy bytes.length bytes)

/-- `from_le_bytes` of the slice of `width` bytes at the read position, and what follows. -/
def takeLe (width : Nat) (data : List UInt8) : Checked (Nat × List UInt8) :=
  if width ≤ data.length then some (leValue (data.take width), data.drop width) else none

/-- The loop over the block pointers (`ondisk.rs:1504-1512`). -/
def takeBlocks : Nat → List UInt8 → List Nat × List UInt8
  | 0, data => ([], data)
  | n + 1, data =>
      if data.length < 8 then ([], data)
      else
        let (blocks, rest) := takeBlocks n (data.drop 8)
        (leValue (data.take 8) :: blocks, rest)

/-- One turn of the decoder (`ondisk.rs:1480-1550`): `none` is a `break`. The data starts
at the read position. -/
def deserializeInode (data : List UInt8) : Checked (Option (Inode × String × List UInt8)) := do
  if data.length < 40 then return none
  let (inodeNumber, data) ← takeLe 8 data
  let fileTypeByte ← data.head?
  let data := data.drop 8
  let (size, data) ← takeLe 8 data
  let (blockCount, data) ← takeLe 4 data
  let data := data.drop 4
  let (created, data) ← takeLe 8 data
  let (modified, data) ← takeLe 8 data
  if data.length < 8 then return none
  let (blocksLen, data) ← takeLe 8 data
  -- `Vec::with_capacity` refuses more than `isize::MAX` bytes.
  if blocksLen * 8 ≥ 2 ^ 63 then none
  let (blocks, data) := takeBlocks blocksLen data
  if data.length < 2 then return none
  let (pathByteLen, data) ← takeLe 2 data
  if data.length < pathByteLen then return none
  let path := fromUtf8Lossy (data.take pathByteLen)
  let data := data.drop pathByteLen
  let inode := {
    inodeNumber
    fileType := if fileTypeByte = 0 then .regularFile else .directory
    size
    blockCount
    created
    modified
    blocks
    name := basename path }
  return some (inode, path, data)

/-- What the decoder builds: the inodes, the path map and the next inode number. -/
structure InodeTable where
  inodes : ExtTreeMap Nat Inode
  pathMap : ExtTreeMap String Nat
  nextInode : Nat

/-- The loop of the decoder (`ondisk.rs:1479-1553`). -/
def deserializeLoop : Nat → List UInt8 → InodeTable → Checked InodeTable
  | 0, _, table => some table
  | count + 1, data, table => do
      match ← deserializeInode data with
      | none => return table
      | some (inode, path, rest) =>
          let nextInode ←
            if inode.inodeNumber ≥ table.nextInode then addU64 inode.inodeNumber 1
            else some table.nextInode
          deserializeLoop count rest {
            inodes := table.inodes.insert inode.inodeNumber inode
            pathMap := table.pathMap.insert path inode.inodeNumber
            nextInode }

/-- `deserialize_inodes` (`ondisk.rs:1454-1571`). -/
def deserializeInodes (data : List UInt8) : Checked InodeTable := do
  if data.length < 8 then
    return {
      inodes := (∅ : ExtTreeMap Nat Inode).insert rootInodeNumber rootInode
      pathMap := (∅ : ExtTreeMap String Nat).insert "/" rootInodeNumber
      nextInode := firstUserInode }
  let count := leValue (data.take 8)
  let table ← deserializeLoop count (data.drop 8) ⟨∅, ∅, firstUserInode⟩
  if rootInodeNumber ∈ table.inodes then return table
  else
    return { table with
      inodes := table.inodes.insert rootInodeNumber rootInode
      pathMap := table.pathMap.insert "/" rootInodeNumber }

end NexaCore.Fs
