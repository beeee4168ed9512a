import NexaCore.Fs.Proofs.Checks
import NexaCore.Fs.Proofs.Records

/-!
# Mounting untrusted bytes

When `mount` on arbitrary bytes returns without a panic and without an allocation larger than
the bytes, and every read of the mounted volume returns. The condition is on the bytes: on the
superblock and on the records of the inode table by their layout.
-/

namespace NexaCore.Fs

open Misc Std List Option ExtTreeMap Record Nat BlockBitmap
open Elf (leValue)

namespace OnDiskVolume

/-! ## The condition -/

def imageBlocks (raw : List UInt8) : Nat := leField (raw.take blockSize) 16 8

/-- The image has a superblock of this format. -/
structure HasHeader (raw : List UInt8) : Prop where
  long : blockSize ≤ raw.length
  magic : (raw.take blockSize).take 8 = fsMagic
  version : leField (raw.take blockSize) 8 4 = fsVersion

/-- The image has the blocks and the bitmap that its superblock announces. -/
structure HasBlocks (raw : List UInt8) : Prop where
  blocks : imageBlocks raw * blockSize ≤ raw.length
  bitmap : (imageBlocks raw + 7) / 8 ≤ min (2 * blockSize) raw.length - blockSize

/-- The third block of an image, with the inode table. -/
def inodeBlock (raw : List UInt8) : List UInt8 := (raw.drop (2 * blockSize)).take blockSize

/-- The records of the inode table that the decoder comes to. -/
def imageRecords (raw : List UInt8) : List (List UInt8) :=
  recordsFrom (leField (inodeBlock raw) 0 8) ((inodeBlock raw).drop 8)

/-- The record that a path stands for: the last record with the path has the inode number, the
last record with that number the inode. A table without the root inode gets one. -/
def resolve (records : List (List UInt8)) (path : String) : Option (List UInt8) :=
  if path = "/" ∧ ∀ r ∈ records, Record.number r ≠ rootInodeNumber then none
  else
    (records.filter (Record.path · = path)).getLast?.bind fun r =>
      (records.filter (Record.number · = Record.number r)).getLast?

/-- The inode table is decoded without a panic, its buffers are no larger than the limit, and
no regular file ends where the end of a read can overflow. -/
structure TableSafe (limit : Nat) (records : List (List UInt8)) : Prop where
  decodes : ∀ r ∈ records, Record.Safe r
  allocates : ∀ r ∈ records, Record.Fits limit r
  reads : ∀ path r, resolve (records.filter Record.Complete) path = some r → Record.IsRegular r →
    Record.size r + 2 ^ 32 ≤ 2 ^ 64 + 1

/-- The size of the volume fits in 64 bits, and an image that has its blocks and bitmap also has
the inode block, with a safe table. -/
def ImageSafe (raw : List UInt8) : Prop :=
  HasHeader raw → imageBlocks raw * blockSize < 2 ^ 64 ∧
    (HasBlocks raw → 2 * blockSize ≤ raw.length ∧ TableSafe raw.length (imageRecords raw))

/-- `mount` returns, asks for no buffer larger than the image, and every `read_file` on the
mounted volume returns. -/
def MountsSafely (computeTag : TagFunction) (raw : List UInt8) : Prop :=
  ∃ result, mountChecked raw = some result ∧ (∀ size ∈ mountRequests raw, size ≤ raw.length) ∧
    ∀ v, result = .ok v → ∀ path offset count,
      ∃ answer, v.readFileChecked computeTag path offset count = some answer

/-! ## Reading -/

/-- Reads of a volume return if no regular file ends in the last 2^32 bytes. -/
theorem readFile_returns_iff (computeTag : TagFunction) (v : OnDiskVolume) :
    (∀ path offset count, ∃ answer, v.readFile computeTag path offset count = some answer) ↔
      ∀ path n inode, v.lookup path = .ok (n, inode) → inode.fileType = .regularFile →
        inode.size + 2 ^ 32 ≤ 2 ^ 64 + 1 := by
  constructor
  · intro returns path n inode found regular
    by_contra large
    obtain ⟨answer, read⟩ := returns path (inode.size - 1) (UInt32.ofNat (2 ^ 32 - 1))
    have count : (UInt32.ofNat (2 ^ 32 - 1)).toNat = 2 ^ 32 - 1 := rfl
    have inside : ¬(inode.size - 1 ≥ inode.size ∨ UInt32.ofNat (2 ^ 32 - 1) = 0) := by
      refine not_or.mpr ⟨by omega, by decide⟩
    have overflow : addU64 (inode.size - 1) (UInt32.ofNat (2 ^ 32 - 1)).toNat = none :=
      if_neg (by rw [count]; omega)
    rw [readFile, found] at read
    simp only [regular, ne_eq, not_true_eq_false, if_false, if_neg inside, overflow] at read
    cases read
  · intro small path offset count
    rw [readFile]
    cases found : v.lookup path with
    | error err => exact ⟨_, rfl⟩
    | ok entry =>
      obtain ⟨n, inode⟩ := entry
      simp only
      split
      · exact ⟨_, rfl⟩
      · rename_i regular
        split
        · exact ⟨_, rfl⟩
        · rename_i inside
          have bound := small path n inode found (not_not.mp regular)
          have width := count.toNat_lt
          rw [addU64_of_lt (by omega)]
          exact ⟨_, rfl⟩

/-! ## The decoded table -/

/-- The root inode is added to a table without one (`ondisk.rs:1556-1568`). -/
def withRoot (table : InodeTable) : InodeTable :=
  if rootInodeNumber ∈ table.inodes then table
  else { table with
    inodes := table.inodes.insert rootInodeNumber rootInode
    pathMap := table.pathMap.insert "/" rootInodeNumber }

theorem deserializeInodes_eq (data : List UInt8) :
    deserializeInodes data = (deserializeLoop (leField data 0 8) (data.drop 8)
      ⟨∅, ∅, firstUserInode⟩).map withRoot := by
  rw [deserializeInodes]
  split
  · rename_i short
    have incomplete : ¬Record.Complete [] := by decide
    have safe : Record.Safe [] :=
      ⟨by decide, by decide, fun complete => absurd complete incomplete⟩
    have empty : deserializeLoop (leField data 0 8) [] ⟨∅, ∅, firstUserInode⟩ =
        some ⟨∅, ∅, firstUserInode⟩ := by
      cases leField data 0 8 with
      | zero => rfl
      | succ count => exact deserializeLoop_incomplete count safe incomplete
    rw [drop_eq_nil_of_le (Nat.le_of_lt short), empty]
    rw [map_some, withRoot, if_neg not_mem_empty]
    rfl
  · have count : leValue (data.take 8) = leField data 0 8 := rfl
    simp only [count]
    cases deserializeLoop (leField data 0 8) (data.drop 8) ⟨∅, ∅, firstUserInode⟩ with
    | none => rfl
    | some table =>
      simp only [bind_eq_bind, bind_some, map_some, withRoot]
      split <;> rfl

/-- The maps of the volume are those of the records, with a root inode. -/
structure Holds (v : OnDiskVolume) (records : List (List UInt8)) (table : InodeTable) : Prop where
  inodes : v.inodes = (withRoot table).inodes
  pathMap : v.pathMap = (withRoot table).pathMap
  numbers : table.inodes = insertAll Record.number Record.inode records ∅
  paths : table.pathMap = insertAll Record.path Record.number records ∅

namespace Holds

variable {v : OnDiskVolume} {records : List (List UInt8)} {table : InodeTable} {path : String}
  (holds : Holds v records table)
include holds

theorem getElem?_inodes (n : Nat) :
    table.inodes[n]? = (records.filter (number · = n)).getLast?.map inode := by
  rw [holds.numbers, getElem?_insertAll, getElem?_empty, or_none]

theorem getElem?_pathMap (path : String) :
    table.pathMap[path]? = (records.filter (Record.path · = path)).getLast?.map Record.number := by
  rw [holds.paths, getElem?_insertAll, getElem?_empty, or_none]

theorem root_mem_iff :
    rootInodeNumber ∈ table.inodes ↔ ¬∀ r ∈ records, number r ≠ rootInodeNumber := by
  rw [mem_iff_isSome_getElem?, holds.getElem?_inodes, isSome_map,
    getLast?_isSome, ne_eq, filter_eq_nil_iff]
  simp only [decide_eq_true_eq, ne_eq]

theorem lookup_of_resolve {r : List UInt8} (found : resolve records path = some r) :
    v.lookup path = .ok (Record.number r, Record.inode r) := by
  unfold resolve at found
  split at found
  · cases found
  · rename_i ordinary
    obtain ⟨named, last, found⟩ := Option.bind_eq_some_iff.mp found
    have number : Record.number r = Record.number named := by
      have mem := mem_of_getLast? found
      simpa using (mem_filter.mp mem).2
    have here : table.pathMap[path]? = some (Record.number named) := by
      rw [holds.getElem?_pathMap, last, map_some]
    have there : table.inodes[Record.number named]? = some (Record.inode r) := by
      rw [holds.getElem?_inodes, found, map_some]
    rw [lookup, holds.pathMap, holds.inodes, withRoot]
    by_cases root : rootInodeNumber ∈ table.inodes
    · simp only [if_pos root, here, there, number]
    · have other : path ≠ "/" := fun slash =>
        ordinary ⟨slash, not_not.mp fun some => root (holds.root_mem_iff.mpr some)⟩
      have apart : Record.number named ≠ rootInodeNumber := by
        intro same
        rw [same] at there
        exact root (ExtTreeMap.mem_iff_isSome_getElem?.mpr (by rw [there]; rfl))
      simp only [if_neg root, getElem?_insert_eq, if_neg other, here, if_neg apart, there, number]

theorem lookup_of_resolve_eq_none (absent : resolve records path = none) :
    v.lookup path = .error .fileNotFound ∨ v.lookup path = .ok (rootInodeNumber, rootInode) := by
  rw [lookup, holds.pathMap, holds.inodes, withRoot]
  unfold resolve at absent
  split at absent
  · rename_i special
    have root : rootInodeNumber ∉ table.inodes := fun mem => holds.root_mem_iff.mp mem special.2
    right
    simp only [if_neg root, getElem?_insert_eq, if_pos special.1, if_pos]
  · rename_i ordinary
    have unnamed : (records.filter (Record.path · = path)).getLast? = none := by
      cases last : (records.filter (Record.path · = path)).getLast? with
      | none => rfl
      | some named =>
        rw [last, bind_some, getLast?_eq_none_iff, filter_eq_nil_iff] at absent
        have mem := (mem_filter.mp (mem_of_getLast? last)).1
        exact absurd (decide_eq_true rfl) (absent named mem)
    have missing : table.pathMap[path]? = none := by
      rw [holds.getElem?_pathMap, unnamed, map_none]
    left
    by_cases root : rootInodeNumber ∈ table.inodes
    · simp only [if_pos root, missing]
    · have other : path ≠ "/" := fun slash =>
        ordinary ⟨slash, not_not.mp fun some => root (holds.root_mem_iff.mpr some)⟩
      simp only [if_neg root, getElem?_insert_eq, if_neg other, missing]

/-- The regular files of the volume are the regular records that paths stand for. -/
theorem sizes_iff :
    (∀ path n inode, v.lookup path = .ok (n, inode) → inode.fileType = .regularFile →
      inode.size + 2 ^ 32 ≤ 2 ^ 64 + 1) ↔
    ∀ path r, resolve records path = some r → Record.IsRegular r →
      size r + 2 ^ 32 ≤ 2 ^ 64 + 1 := by
  constructor
  · intro files path r found regular
    exact files path _ _ (holds.lookup_of_resolve found) (if_pos regular)
  · intro sizes path n inode found regular
    cases resolved : resolve records path with
    | none =>
      rcases holds.lookup_of_resolve_eq_none resolved with missing | root
      · rw [missing] at found
        cases found
      · rw [root] at found
        cases found
        cases regular
    | some r =>
      rw [holds.lookup_of_resolve resolved] at found
      cases found
      apply sizes path r resolved
      by_contra directory
      exact absurd ((if_neg directory).symm.trans regular) (by decide)

end Holds

/-! ## Mounting -/

section

variable {raw : List UInt8}

theorem parseSuperblock_of_header (header : HasHeader raw) :
    ∃ sb, parseSuperblock (raw.take blockSize) = .ok sb ∧ sb.totalBlocks = imageBlocks raw := by
  have long : ¬(raw.take blockSize).length < 64 := by
    rw [length_take_of_le header.long]
    decide
  rw [parseSuperblock, if_neg long, if_neg (not_not.mpr header.magic),
    if_neg (not_not.mpr header.version)]
  exact ⟨_, rfl, rfl⟩

theorem parseSuperblock_of_not_header (long : blockSize ≤ raw.length) (foreign : ¬HasHeader raw) :
    parseSuperblock (raw.take blockSize) = .error .integrityViolation := by
  rw [parseSuperblock]
  split
  · rfl
  · split
    · rfl
    · rename_i magic
      split
      · rfl
      · rename_i version
        exact absurd ⟨long, not_not.mp magic, not_not.mp version⟩ foreign

theorem mount_of_not_header (foreign : ¬HasHeader raw) :
    mount raw = some (.error .integrityViolation) ∧ mountRequests raw = [] := by
  by_cases short : raw.length < blockSize
  · rw [mount, mountRequests, if_pos short, if_pos short]
    exact ⟨rfl, rfl⟩
  · have refused := parseSuperblock_of_not_header (Nat.not_lt.mp short) foreign
    rw [mount, mountRequests, if_neg short, if_neg short, refused]
    exact ⟨rfl, rfl⟩

theorem mulU64_eq_none {a b : Nat} (large : 2 ^ 64 ≤ a * b) : mulU64 a b = none :=
  if_neg (Nat.not_lt.mpr large)

theorem mount_of_overflow (header : HasHeader raw) (large : 2 ^ 64 ≤ imageBlocks raw * blockSize) :
    mount raw = none := by
  obtain ⟨sb, parsed, total⟩ := parseSuperblock_of_header header
  rw [mount, if_neg (Nat.not_lt.mpr header.long), parsed]
  simp only [total, mulU64_eq_none large]
  rfl

theorem sliceRange_bitmap (long : blockSize ≤ raw.length) :
    ∃ bitmap, sliceRange raw blockSize (min (blockSize + blockSize) raw.length) = some bitmap ∧
      bitmap.length = min (2 * blockSize) raw.length - blockSize := by
  have order : blockSize ≤ min (blockSize + blockSize) raw.length :=
    le_min (le_add_right _ _) long
  refine ⟨_, sliceRange_of_le order (min_le_right _ _), ?_⟩
  rw [length_take, length_drop, two_mul]
  omega

theorem addU64_blocks {total : Nat} (fits : total * blockSize < 2 ^ 64) :
    addU64 total 7 = some (total + 7) := by
  have few : total < 2 ^ 52 := by
    by_contra many
    have product : 2 ^ 52 * blockSize ≤ total * blockSize :=
      Nat.mul_le_mul_right _ (Nat.not_lt.mp many)
    exact absurd (product.trans_lt fits) (by decide)
  exact addU64_of_lt (by omega)

theorem fromBytes_short {bytes : List UInt8} {total : Nat} (fits : total * blockSize < 2 ^ 64)
    (short : bytes.length < (total + 7) / 8) : fromBytes bytes total = some none := by
  rw [fromBytes, addU64_blocks fits]
  simp only [bind_eq_bind, bind_some, dif_neg (Nat.not_le.mpr short)]
  rfl

theorem fromBytes_enough {bytes : List UInt8} {total : Nat} (fits : total * blockSize < 2 ^ 64)
    (enough : (total + 7) / 8 ≤ bytes.length) :
    ∃ bitmap, fromBytes bytes total = some (some bitmap) := by
  rw [fromBytes, addU64_blocks fits]
  simp only [bind_eq_bind, bind_some, dif_pos enough]
  exact ⟨_, rfl⟩

theorem mount_of_not_blocks (header : HasHeader raw) (fits : imageBlocks raw * blockSize < 2 ^ 64)
    (cut : ¬HasBlocks raw) :
    mount raw = some (.error .integrityViolation) ∧ mountRequests raw = [] := by
  obtain ⟨sb, parsed, total⟩ := parseSuperblock_of_header header
  obtain ⟨bytes, bitmap, size⟩ := sliceRange_bitmap header.long
  have long : ¬raw.length < blockSize := Nat.not_lt.mpr header.long
  rw [mount, mountRequests, if_neg long, if_neg long, parsed]
  simp only [total, mulU64_of_lt fits, bind_eq_bind, bind_some]
  by_cases small : raw.length < imageBlocks raw * blockSize
  · rw [if_pos small, if_pos (.inr small)]
    exact ⟨rfl, rfl⟩
  · have short : min (2 * blockSize) raw.length - blockSize < (imageBlocks raw + 7) / 8 := by
      by_contra enough
      exact cut ⟨Nat.not_lt.mp small, Nat.not_lt.mp enough⟩
    rw [if_neg small, if_neg (not_or.mpr ⟨Nat.not_le.mpr fits, small⟩), if_pos short, bitmap,
      bind_some, fromBytes_short fits (size ▸ short)]
    exact ⟨rfl, rfl⟩

theorem sliceRange_inodeBlock :
    sliceRange raw (2 * blockSize) (min (2 * blockSize + blockSize) raw.length) =
      if 2 * blockSize ≤ raw.length then some (inodeBlock raw) else none := by
  split
  · rename_i long
    have same : (raw.drop (2 * blockSize)).take
        (min (2 * blockSize + blockSize) raw.length - 2 * blockSize) = inodeBlock raw := by
      rw [inodeBlock, take_eq_take_iff, length_drop]
      omega
    rw [sliceRange_of_le (le_min (le_add_right _ _) long) (min_le_right _ _), same]
  · rename_i short
    exact if_neg fun inside => short (inside.1.trans (min_le_right _ _))

/-- After the superblock and the bitmap comes the inode table. Its block is sliced without a check
that the image has it. -/
theorem mount_of_blocks (header : HasHeader raw) (fits : imageBlocks raw * blockSize < 2 ^ 64)
    (blocks : HasBlocks raw) :
    ∃ volume : InodeTable → OnDiskVolume,
      (∀ table, (volume table).inodes = table.inodes ∧ (volume table).pathMap = table.pathMap) ∧
      mount raw = (if 2 * blockSize ≤ raw.length then some (inodeBlock raw) else none).bind
        fun data => (deserializeInodes data).bind fun table => some (.ok (volume table)) := by
  obtain ⟨sb, parsed, total⟩ := parseSuperblock_of_header header
  obtain ⟨bytes, sliced, size⟩ := sliceRange_bitmap header.long
  have enough : (imageBlocks raw + 7) / 8 ≤ bytes.length := size ▸ blocks.bitmap
  obtain ⟨bitmap, decoded⟩ := fromBytes_enough fits enough
  rw [mount, if_neg (Nat.not_lt.mpr header.long), parsed, ← sliceRange_inodeBlock]
  simp only [total, mulU64_of_lt fits, bind_eq_bind, bind_some,
    if_neg (Nat.not_lt.mpr blocks.blocks), sliced, decoded]
  exact ⟨_, fun table => ⟨rfl, rfl⟩, rfl⟩

section

variable (header : HasHeader raw) (fits : imageBlocks raw * blockSize < 2 ^ 64)
  (blocks : HasBlocks raw) (long : 2 * blockSize ≤ raw.length)

include header fits blocks long

/-- All buffers but those for the records fit in the image. -/
theorem mountRequests_le_iff (safe : ∀ r ∈ imageRecords raw, Record.Safe r) :
    (∀ size ∈ mountRequests raw, size ≤ raw.length) ↔
      ∀ r ∈ imageRecords raw, Record.Fits raw.length r := by
  obtain ⟨sb, parsed, total⟩ := parseSuperblock_of_header header
  have sized := blocks.blocks
  have small : ¬raw.length < imageBlocks raw * blockSize := Nat.not_lt.mpr sized
  have inside := (Nat.le_mul_of_pos_right (imageBlocks raw) (by decide : 0 < blockSize)).trans sized
  have large : 64 ≤ raw.length := (by decide : 64 ≤ 2 * blockSize).trans long
  have listed : ∀ size ∈ (4 :: growth 4 (imageBlocks raw - 3)).map (8 * ·), size ≤ raw.length := by
    have grown : ∀ n ∈ growth 4 (imageBlocks raw - 3), 8 * n ≤ raw.length := by
      intro n mem
      have bound := le_of_mem_growth mem
      simp only [blockSize] at sized
      omega
    rw [map_cons, forall_mem_cons, List.forall_mem_map]
    exact ⟨by omega, grown⟩
  have room : 3 * (((inodeBlock raw).drop 8).length - 58) ≤ raw.length := by
    simp only [inodeBlock, length_drop, length_take, blockSize] at long ⊢
    omega
  have table := tableRequests_le_iff room (by omega) safe
  rw [mountRequests, if_neg (Nat.not_lt.mpr header.long), parsed]
  simp only [total]
  rw [if_neg (not_or.mpr ⟨Nat.not_le.mpr fits, small⟩), if_neg (Nat.not_lt.mpr blocks.bitmap),
    cons_append, forall_mem_cons, forall_mem_append, forall_mem_append]
  constructor
  · exact fun all => table.mp all.2.2.2
  · intro fits
    refine ⟨by omega, listed, fun size mem => ?_, table.mpr fits⟩
    rw [eq_of_mem_replicate mem]
    exact header.long

end

theorem not_mountsSafely {computeTag : TagFunction} (panics : mount raw = none) :
    ¬MountsSafely computeTag raw := by
  rintro ⟨result, mounted, -⟩
  rw [mountChecked_eq, panics] at mounted
  cases mounted

theorem mountsSafely_of_error {computeTag : TagFunction} {err : FsError}
    (refused : mount raw = some (.error err) ∧ mountRequests raw = []) :
    MountsSafely computeTag raw := by
  refine ⟨.error err, (mountChecked_eq raw).trans refused.1, fun size mem => ?_, fun v ok => ?_⟩
  · rw [refused.2] at mem
    cases mem
  · cases ok

theorem mountsSafely_iff_table (computeTag : TagFunction) (header : HasHeader raw)
    (fits : imageBlocks raw * blockSize < 2 ^ 64) (blocks : HasBlocks raw)
    (long : 2 * blockSize ≤ raw.length) :
    MountsSafely computeTag raw ↔ TableSafe raw.length (imageRecords raw) := by
  have bound : (⟨∅, ∅, firstUserInode⟩ : InodeTable).nextInode < 2 ^ 64 := by decide
  have read := deserializeInodes_eq (inodeBlock raw)
  obtain ⟨volume, maps, mounted⟩ := mount_of_blocks header fits blocks
  rw [if_pos long, bind_some, read] at mounted
  rcases deserializeLoop_spec bound with ⟨decodes, next, loop⟩ | ⟨broken, loop⟩
  · rw [loop, map_some, bind_some] at mounted
    obtain ⟨v, mounted, inodes, pathMap⟩ : ∃ v, mount raw = some (.ok v) ∧ v.inodes = _ ∧
      v.pathMap = _ := ⟨_, mounted, maps _⟩
    have holds : Holds v ((imageRecords raw).filter Record.Complete) _ :=
      ⟨inodes, pathMap, rfl, rfl⟩
    have files := (readFile_returns_iff computeTag v).trans holds.sizes_iff
    have requests := mountRequests_le_iff header fits blocks long decodes
    constructor
    · rintro ⟨result, returned, small, reads⟩
      rw [mountChecked_eq, mounted] at returned
      refine ⟨decodes, requests.mp small, files.mp fun path offset count => ?_⟩
      rw [← readFileChecked_eq]
      exact reads v (Option.some.inj returned).symm path offset count
    · rintro ⟨-, fits, sizes⟩
      refine ⟨.ok v, (mountChecked_eq raw).trans mounted, requests.mpr fits, ?_⟩
      intro v' same path offset count
      cases same
      rw [readFileChecked_eq]
      exact files.mpr sizes path offset count
  · rw [loop, map_none, bind_none] at mounted
    exact iff_of_false (not_mountsSafely mounted) fun safe => broken safe.decodes

end

/-- Mounting untrusted bytes is safe exactly for the images that meet the condition. -/
theorem mount_untrusted_iff (computeTag : TagFunction) (raw : List UInt8) :
    MountsSafely computeTag raw ↔ ImageSafe raw := by
  unfold ImageSafe
  by_cases header : HasHeader raw
  · by_cases fits : imageBlocks raw * blockSize < 2 ^ 64
    · by_cases blocks : HasBlocks raw
      · by_cases long : 2 * blockSize ≤ raw.length
        · rw [mountsSafely_iff_table computeTag header fits blocks long]
          exact ⟨fun table _ => ⟨fits, fun _ => ⟨long, table⟩⟩,
            fun safe => ((safe header).2 blocks).2⟩
        · obtain ⟨volume, -, panics⟩ := mount_of_blocks header fits blocks
          rw [if_neg long, bind_none] at panics
          exact iff_of_false (not_mountsSafely panics) fun safe => long ((safe header).2 blocks).1
      · exact iff_of_true (mountsSafely_of_error (mount_of_not_blocks header fits blocks))
          fun _ => ⟨fits, fun present => absurd present blocks⟩
    · have panics := mount_of_overflow header (Nat.not_lt.mp fits)
      exact iff_of_false (not_mountsSafely panics) fun safe => fits (safe header).1
  · exact iff_of_true (mountsSafely_of_error (mount_of_not_header header))
      fun present => absurd present header

/-- One block with a superblock that announces no blocks. -/
def emptyImage : List UInt8 := fsMagic ++ [2, 0, 0, 0] ++ List.replicate (blockSize - 12) 0

/-- The inode block of an image of one block is sliced out of range. -/
theorem mount_panics_emptyImage : mountChecked emptyImage = none := by
  have size : emptyImage.length = blockSize := by
    rw [emptyImage, length_append, length_replicate]
    rfl
  have all : emptyImage.take blockSize = emptyImage := take_of_length_le size.le
  have header : HasHeader emptyImage := by
    refine ⟨size.ge, ?_, ?_⟩ <;> rw [all] <;> rfl
  have none : imageBlocks emptyImage = 0 := by
    rw [imageBlocks, all]
    rfl
  have blocks : HasBlocks emptyImage := by
    refine ⟨?_, ?_⟩ <;> rw [none]
    · rw [zero_mul]
      exact zero_le _
    · exact zero_le _
  obtain ⟨volume, -, panics⟩ := mount_of_blocks header (by rw [none]; decide) blocks
  rw [mountChecked_eq, panics, if_neg (by rw [size]; decide), bind_none]

end OnDiskVolume

end NexaCore.Fs
