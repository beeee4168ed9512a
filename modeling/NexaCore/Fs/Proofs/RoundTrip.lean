import NexaCore.Fs.Proofs.Image
import NexaCore.Fs.Proofs.Paths

/-!
# Writing a volume out and mounting it

A mounted image answers as the volume it was written from if the volume can be restored:
the stored blocks fit before the last block of the image, and no allocated block without
data lies below a block with data. Such blocks are left by a write that ran out of space
half way; `mount` counts them when it looks for the place of a block, `sync_to_bytes` does
not.
-/

namespace NexaCore.Fs.OnDiskVolume

open Misc Std List Option ExtTreeMap

variable {computeTag : TagFunction} {v v' m : OnDiskVolume} {totalBlocks : Nat} {raw : List UInt8}
  {path : String}

/-! ## The fields of the inode table -/

/-- The numbers, times, paths and names of the inodes, and the root directory. -/
structure Tidy (totalBlocks : Nat) (v : OnDiskVolume) : Prop where
  total : v.superblock.totalBlocks = totalBlocks
  next : v.nextInode < 2 ^ 64
  numbers : ∀ (n : Nat) (inode : Inode), v.inodes[n]? = some inode →
    n < 2 ^ 64 ∧ inode.created = 0 ∧ inode.modified = 0
  paths : ∀ (p : String) (n : Nat), v.pathMap[p]? = some n → byteLen p ≤ maxPathLen
  names : ∀ (p : String) (n : Nat) (inode : Inode), v.pathMap[p]? = some n →
    v.inodes[n]? = some inode → inode.name = basename p
  root : v.pathMap["/"]? = some rootInodeNumber ∧
    ∃ inode, v.inodes[rootInodeNumber]? = some inode ∧ inode.fileType = .directory

theorem Tidy.created (tidy : v.Tidy totalBlocks) (named : v.Named)
    (fileType : FileType) (creatable : v.Creatable path)
    (fresh : v.inodes[v.nextInode]? = none) : (v.created fileType path).Tidy totalBlocks := by
  obtain ⟨here, inode, found, directory⟩ := tidy.root
  have apart : rootInodeNumber ≠ v.nextInode := by
    intro same
    rw [same, fresh] at found
    cases found
  have other : "/" ≠ path := by
    rintro rfl
    exact creatable.absent (ExtTreeMap.mem_iff_isSome_getElem?.mpr (by rw [here]; rfl))
  refine ⟨tidy.total, Nat.mod_lt _ (by decide), ?_, ?_, ?_, ?_, inode, ?_, directory⟩
  · intro n i there
    simp only [OnDiskVolume.created] at there
    rcases insert_eq_some.mp there with ⟨rfl, rfl⟩ | ⟨-, there⟩
    · exact ⟨tidy.next, rfl, rfl⟩
    · exact tidy.numbers n i there
  · intro p n there
    rcases insert_eq_some.mp there with ⟨rfl, -⟩ | ⟨-, there⟩
    · exact creatable.short
    · exact tidy.paths p n there
  · intro p n i there there'
    rcases insert_eq_some.mp there with ⟨rfl, same⟩ | ⟨-, there⟩
    · rcases insert_eq_some.mp there' with ⟨-, rfl⟩ | ⟨apart, -⟩
      · rfl
      · exact absurd same apart
    · rcases insert_eq_some.mp there' with ⟨rfl, -⟩ | ⟨-, there'⟩
      · obtain ⟨j, live⟩ := named.live p _ there
        rw [fresh] at live
        cases live
      · exact tidy.names p n i there there'
  · simp only [OnDiskVolume.created]
    rw [getElem?_insert_eq, if_neg other, here]
  · simp only [OnDiskVolume.created]
    rw [getElem?_insert_eq, if_neg apart, found]

theorem Tidy.removed {n : Nat} (tidy : v.Tidy totalBlocks)
    (superblock : m.superblock.totalBlocks = v.superblock.totalBlocks)
    (next : m.nextInode = v.nextInode) (inodes : m.inodes = v.inodes)
    (pathMap : m.pathMap = v.pathMap) (other : path ≠ "/") (apart : n ≠ rootInodeNumber)
    (freeBlocks : Nat) : (m.removed path n freeBlocks).Tidy totalBlocks := by
  obtain ⟨here, inode, found, directory⟩ := tidy.root
  have keptInodes : ∀ (k : Nat) (i : Inode), (m.removed path n freeBlocks).inodes[k]? = some i →
      v.inodes[k]? = some i := by
    intro k i there
    simp only [OnDiskVolume.removed, inodes, erase_eq_some] at there
    exact there.2
  have keptPaths : ∀ (p : String) (k : Nat), (m.removed path n freeBlocks).pathMap[p]? = some k →
      v.pathMap[p]? = some k := by
    intro p k there
    simp only [OnDiskVolume.removed, pathMap, erase_eq_some] at there
    exact there.2
  refine ⟨superblock.trans tidy.total, next.trans_lt tidy.next,
    fun k i there => tidy.numbers k i (keptInodes k i there),
    fun p k there => tidy.paths p k (keptPaths p k there),
    fun p k i there there' => tidy.names p k i (keptPaths p k there) (keptInodes k i there'), ?_,
    inode, ?_, directory⟩
  · simp only [OnDiskVolume.removed, pathMap]
    rw [getElem?_erase_eq, if_neg other.symm, here]
  · simp only [OnDiskVolume.removed, inodes]
    rw [getElem?_erase_eq, if_neg apart.symm, found]

theorem Tidy.written {n : Nat} {inode : Inode} {data : List UInt8} {newBlocks : List (Nat × Nat)}
    {b' : BlockBitmap} {e : Extent} (tidy : v.Tidy totalBlocks)
    (found : v.inodes[n]? = some inode) :
    (written computeTag v n inode data e newBlocks b').Tidy totalBlocks := by
  have released := releases_foldl (updated computeTag v n inode data e newBlocks b')
    (replaced inode.blocks newBlocks)
  -- Every inode has the number, the times, the name and the type of one of `v`.
  have kept : ∀ (k : Nat) (i : Inode),
      (OnDiskVolume.written computeTag v n inode data e newBlocks b').inodes[k]? = some i →
      ∃ j, v.inodes[k]? = some j ∧ i.created = j.created ∧ i.modified = j.modified ∧
        i.name = j.name ∧ i.fileType = j.fileType := by
    intro k i there
    rw [inodes_written] at there
    rcases insert_eq_some.mp there with ⟨rfl, rfl⟩ | ⟨-, there⟩
    · exact ⟨inode, found, rfl, rfl, rfl, rfl⟩
    · exact ⟨i, there, rfl, rfl, rfl, rfl⟩
  obtain ⟨here, root, there, directory⟩ := tidy.root
  refine ⟨(congrArg Superblock.totalBlocks released.superblock).trans tidy.total,
    released.nextInode.trans_lt tidy.next, ?_, ?_, ?_, by rw [pathMap_written, here], ?_⟩
  · intro k i there
    obtain ⟨j, found', created, modified, -, -⟩ := kept k i there
    obtain ⟨bound, zero, zero'⟩ := tidy.numbers k j found'
    exact ⟨bound, created.trans zero, modified.trans zero'⟩
  · rw [pathMap_written]
    exact tidy.paths
  · intro p k i here there
    rw [pathMap_written] at here
    obtain ⟨j, found', -, -, name, -⟩ := kept k i there
    exact name.trans (tidy.names p k j here found')
  · rw [inodes_written, getElem?_insert_eq]
    split
    · rename_i same
      rw [same, found, some_inj] at there
      exact ⟨_, rfl, there ▸ directory⟩
    · exact ⟨root, there, directory⟩

theorem Tidy.effect {c : Call} {r : Except FsError Unit} (tidy : v.Tidy totalBlocks)
    (named : v.Named) (effect : Effect computeTag v c r v') (fresh : v.FreshInode c) :
    v'.Tidy totalBlocks := by
  cases effect with
  | refused | idle => exact tidy
  | createdFile creatable | createdDirectory creatable =>
    exact tidy.created named _ creatable (fresh creatable)
  | written admitted => exact tidy.written (lookup_eq_ok.mp admitted.found).2
  | ranOut => exact ⟨tidy.total, tidy.next, tidy.numbers, tidy.paths, tidy.names, tidy.root⟩
  | @deletedFile path n inode found regular =>
    obtain ⟨here, there⟩ := lookup_eq_ok.mp found
    obtain ⟨root, i, found', directory⟩ := tidy.root
    have apart : n ≠ rootInodeNumber := by
      rintro rfl
      rw [there, some_inj] at found'
      rw [← found', regular] at directory
      cases directory
    have other : path ≠ "/" := by
      rintro rfl
      exact apart (Option.some_inj.mp (here.symm.trans root))
    have released := releases_foldl v inode.blocks
    exact tidy.removed (congrArg Superblock.totalBlocks released.superblock) released.nextInode
      released.inodes released.pathMap other apart _
  | @deletedDirectory path n inode other found directory =>
    have apart : n ≠ rootInodeNumber := by
      rintro rfl
      exact other (named.unique _ _ _ (lookup_eq_ok.mp found).1 tidy.root.1)
    exact tidy.removed rfl rfl rfl rfl other apart _

theorem tidy_format (formatted : format totalBlocks = some v) : v.Tidy totalBlocks := by
  obtain ⟨bitmap, -, formatted⟩ := Option.bind_eq_some_iff.mp formatted
  cases formatted
  refine ⟨rfl, (by decide : firstUserInode < 2 ^ 64), fun n inode found => ?_, fun p n here => ?_,
    fun p n inode here found => ?_, insert_empty_eq_some.mpr ⟨rfl, rfl⟩, rootInode,
    insert_empty_eq_some.mpr ⟨rfl, rfl⟩, rfl⟩
  · obtain ⟨rfl, rfl⟩ := insert_empty_eq_some.mp found
    exact ⟨by decide, rfl, rfl⟩
  · rw [(insert_empty_eq_some.mp here).1]
    decide +kernel
  · rw [(insert_empty_eq_some.mp here).1, (insert_empty_eq_some.mp found).2]
    decide +kernel

/-- What holds of the volumes reached by calls that take no inode number in use. -/
theorem tidy_of_run {calls : List Call} {v₀ : OnDiskVolume}
    (formatted : format totalBlocks = some v₀)
    (run : Run ((step computeTag).restrict FreshInode) v₀ calls v) :
    v.Inv computeTag ∧ v.Named ∧ v.Tidy totalBlocks := by
  refine run.invariant (fun v => v.Inv computeTag ∧ v.Named ∧ v.Tidy totalBlocks)
    (fun m c m' kept taken => ?_)
    ⟨inv_format formatted, named_format formatted, tidy_format formatted⟩
  obtain ⟨inv, named, tidy⟩ := kept
  obtain ⟨fresh, taken⟩ := taken
  obtain ⟨r, -, effect⟩ := step_effect inv taken
  exact ⟨inv.effect effect, named.effect effect fresh, tidy.effect named effect fresh⟩

theorem Inv.encodable (inv : v.Inv computeTag) (named : v.Named) (tidy : v.Tidy totalBlocks)
    (few : totalBlocks ≤ maxV1TotalBlocks) (last : v.inodes[2 ^ 64 - 1]? = none) :
    Encodable v.inodes v.pathMap := by
  obtain ⟨-, root, found, -⟩ := tidy.root
  refine ⟨fun n inode found => (inv.shaped n inode found).number, ?_, named.live, named.unique,
    named.named, ?_, root, found⟩
  · intro n inode found
    have bound := (tidy.numbers n inode found).1
    have apart : n ≠ 2 ^ 64 - 1 := by
      rintro rfl
      rw [last] at found
      cases found
    omega
  · intro p n inode here found
    have shaped := inv.shaped n inode found
    obtain ⟨bound, created, modified⟩ := tidy.numbers n inode found
    have short := shaped.short
    have size := shaped.size
    have count : inode.blockCount ≤ inode.blocks.length := by
      rw [shaped.count]
      exact countP_le_length
    have path := tidy.paths p n here
    simp only [blockSize, maxPathLen] at size path
    refine ⟨shaped.number ▸ bound, by omega, by omega, by rw [created]; decide,
      by rw [modified]; decide, by omega,
        fun b mem => ?_, by omega, tidy.names p n inode here found⟩
    by_cases hole : b = 0
    · rw [hole]
      decide
    · obtain ⟨block, stored⟩ := inv.referenced n inode found b mem hole
      have upper := (inv.stored b block stored).2.1
      rw [← inv.total, tidy.total] at upper
      simp only [maxV1TotalBlocks, blockSize] at few
      omega

/-! ## The data blocks -/

/-- The volume can be restored from its image. -/
structure Restorable (v : OnDiskVolume) : Prop where
  last : v.inodes[2 ^ 64 - 1]? = none
  room : v.dataBlocks.size + 3 < v.superblock.totalBlocks
  ranked : ∀ a b, 3 ≤ a → a < b → v.bitmap.isAllocated a = true → b ∈ v.dataBlocks →
    a ∈ v.dataBlocks

/-- The place of a stored block in the image is its place among the allocated blocks. -/
theorem Inv.getElem?_allocated (inv : v.Inv computeTag) (restorable : v.Restorable) {i b : Nat}
    (here : v.dataBlocks.keys[i]? = some b) :
    ((List.range' 3 (v.superblock.totalBlocks - 3)).filter v.bitmap.isAllocated)[i]? = some b := by
  have stored : ∀ a ∈ v.dataBlocks.keys, 3 ≤ a ∧ a < v.superblock.totalBlocks ∧
      v.bitmap.isAllocated a = true := by
    intro a mem
    obtain ⟨block, found⟩ := isSome_iff_exists.mp
      (ExtTreeMap.mem_iff_isSome_getElem?.mp (ExtTreeMap.mem_keys.mp mem))
    obtain ⟨lower, upper, allocated, -⟩ := inv.stored a block found
    exact ⟨lower, inv.total ▸ upper, allocated⟩
  apply getElem?_of_sorted _ _ _ _ here
  · exact (ordered_keys (t := v.dataBlocks)).imp Nat.compare_eq_lt.mp
  · exact (pairwise_lt_range' 1).filter _
  · intro a mem
    obtain ⟨lower, upper, allocated⟩ := stored a mem
    rw [mem_filter, mem_range'_1]
    exact ⟨by omega, allocated⟩
  · intro a mem b mem' below
    rw [mem_filter, mem_range'_1] at mem
    exact mem_keys.mpr (restorable.ranked a b mem.1.1 below mem.2 (mem_keys.mp mem'))

theorem Inv.getElem?_deserializeDataBlocks (inv : v.Inv computeTag)
    (restorable : v.Restorable) (layout : v.Layout raw) {b : Nat} {block : List UInt8}
    (found : v.dataBlocks[b]? = some block) :
    (deserializeDataBlocks raw (3 * blockSize) ((v.superblock.totalBlocks - 1) * blockSize)
      v.bitmap v.superblock.totalBlocks)[b]? = some block := by
  obtain ⟨i, entry⟩ := List.getElem?_of_mem (mem_toList_iff_getElem?_eq_some.mpr found)
  have key : v.dataBlocks.keys[i]? = some b := by
    rw [← map_fst_toList_eq_keys, List.getElem?_map, entry]
    rfl
  have inKeys := (List.getElem?_eq_some_iff.mp entry).1
  rw [ExtTreeMap.length_toList] at inKeys
  have room := restorable.room
  have inImage : 3 + i < v.superblock.totalBlocks - 1 := by omega
  have distinct : ((List.range' 3 (v.superblock.totalBlocks - 3)).filter
      v.bitmap.isAllocated).Nodup := List.Nodup.filter _ nodup_range'
  rw [deserializeDataBlocks, (getElem?_deserializeBlocks distinct 3 _ ∅).1 i b
    (inv.getElem?_allocated restorable key), if_pos inImage, layout.data i inImage, entry]
  rfl

/-! ## The answers of the mounted volume -/

theorem readFile_congr (lookup : m.lookup path = v.lookup path)
    (tags : m.integrityTags = v.integrityTags)
    (blocks : ∀ (n : Nat) (inode : Inode), v.lookup path = .ok (n, inode) → ∀ b ∈ inode.blocks,
      b ≠ 0 → m.dataBlocks[b]? = v.dataBlocks[b]?) (offset : Nat) (count : UInt32) :
    m.readFile computeTag path offset count = v.readFile computeTag path offset count := by
  have block : ∀ (n : Nat) (inode : Inode), v.lookup path = .ok (n, inode) →
      ∀ idx start stop, m.readBlock computeTag (inode.blocks.getD idx 0) start stop =
        v.readBlock computeTag (inode.blocks.getD idx 0) start stop := by
    intro n inode found idx start stop
    unfold readBlock
    by_cases hole : inode.blocks.getD idx 0 = 0
    · rw [if_pos hole, if_pos hole]
    · have mem := mem_of_getElem? (getElem?_of_getD rfl hole)
      rw [if_neg hole, if_neg hole, blocks n inode found _ mem hole, tags]
  have loop : ∀ (n : Nat) (inode : Inode), v.lookup path = .ok (n, inode) → ∀ (e : Extent) idxs,
      m.readBlocks computeTag inode e idxs = v.readBlocks computeTag inode e idxs := by
    intro n inode found e idxs
    induction idxs with
    | nil => rfl
    | cons idx idxs ih => rw [readBlocks, readBlocks, block n inode found, ih]
  unfold readFile
  rw [lookup]
  cases found : v.lookup path with
  | error err => rfl
  | ok entry =>
    obtain ⟨n, inode⟩ := entry
    simp only [loop n inode found]

/-- The two volumes have the same paths and give the same answers. -/
structure SameAnswers (computeTag : TagFunction) (m v : OnDiskVolume) : Prop where
  paths : m.pathMap.keys = v.pathMap.keys
  stat : ∀ path, m.statFile path = v.statFile path
  list : ∀ path, m.listDirectory path = v.listDirectory path
  read : ∀ path offset count,
    m.readFile computeTag path offset count = v.readFile computeTag path offset count

theorem SameAnswers.of_tables (inodes : m.inodes = v.inodes) (pathMap : m.pathMap = v.pathMap)
    (tags : m.integrityTags = v.integrityTags)
    (blocks : ∀ (n : Nat) (inode : Inode), v.inodes[n]? = some inode → ∀ b ∈ inode.blocks,
      b ≠ 0 → m.dataBlocks[b]? = v.dataBlocks[b]?) : SameAnswers computeTag m v := by
  have lookup : ∀ path, m.lookup path = v.lookup path := by
    intro path
    rw [lookup, lookup, inodes, pathMap]
  refine ⟨by rw [pathMap], fun path => ?_, fun path => ?_, fun path offset count => ?_⟩
  · rw [statFile, statFile, lookup]
  · rw [listDirectory, listDirectory, lookup, pathMap]
  · exact readFile_congr (lookup path) tags
      (fun n inode found => blocks n inode (lookup_eq_ok.mp found).2) offset count

theorem sizes_of_syncToBytes (synced : v.syncToBytes = some (.ok raw)) :
    v.bitmap.bits.length ≤ blockSize ∧ (serializeInodes v.inodes v.pathMap).length ≤ blockSize ∧
      v.integrityTags.size ≤ integrityEntriesPerBlock := by
  unfold syncToBytes at synced
  by_cases bitmap : v.bitmap.bits.length > blockSize
  · rw [if_pos bitmap] at synced
    cases synced
  rw [if_neg bitmap] at synced
  simp only at synced
  by_cases table : (serializeInodes v.inodes v.pathMap).length > blockSize
  · rw [if_pos table] at synced
    cases synced
  rw [if_neg table] at synced
  by_cases tags : v.integrityTags.size > integrityEntriesPerBlock
  · rw [if_pos tags] at synced
    cases synced
  exact ⟨Nat.not_lt.mp bitmap, Nat.not_lt.mp table, Nat.not_lt.mp tags⟩

theorem Inv.layout_of_sizes (inv : v.Inv computeTag) (enough : 4 ≤ v.superblock.totalBlocks)
    (sizes : v.bitmap.bits.length ≤ blockSize ∧
      (serializeInodes v.inodes v.pathMap).length ≤ blockSize ∧
      v.integrityTags.size ≤ integrityEntriesPerBlock) :
    ∃ raw, v.syncToBytes = some (.ok raw) ∧ v.Layout raw :=
  syncToBytes_layout inv.magic enough (fun b block found => (inv.stored b block found).2.2.2)
    sizes.1 sizes.2.1 sizes.2.2

theorem Inv.mount_of_sync (inv : v.Inv computeTag) (named : v.Named)
    (tidy : v.Tidy totalBlocks) (enough : 4 ≤ totalBlocks) (few : totalBlocks ≤ maxV1TotalBlocks)
    (last : v.inodes[2 ^ 64 - 1]? = none) (synced : v.syncToBytes = some (.ok raw)) :
    v.Layout raw ∧ ∃ m, mount raw = some (.ok m) ∧ m.inodes = v.inodes ∧ m.pathMap = v.pathMap ∧
      m.integrityTags = v.integrityTags ∧
      m.dataBlocks =
        if v.superblock.totalBlocks > 4 then
          deserializeDataBlocks raw (3 * blockSize) ((v.superblock.totalBlocks - 1) * blockSize)
            v.bitmap v.superblock.totalBlocks
        else ∅ := by
  have sizes := sizes_of_syncToBytes synced
  have total := tidy.total
  obtain ⟨raw', synced', layout⟩ := inv.layout_of_sizes (by omega) sizes
  obtain rfl : raw = raw' := by
    rw [synced] at synced'
    simpa using synced'
  refine ⟨layout, mount_layout layout inv.magic inv.version (by omega) (by omega) inv.total
    sizes.2.1 (inv.encodable named tidy few last) sizes.2.2 fun b tag found => ?_⟩
  rw [inv.tagged, map_eq_some_iff] at found
  obtain ⟨block, stored, -⟩ := found
  obtain ⟨lower, upper, -, -⟩ := inv.stored b block stored
  rw [← inv.total] at upper
  simp only [maxV1TotalBlocks, blockSize] at few
  omega

/-- After calls that take no inode number in use, a volume that can be restored is mounted
from its image and gives the same answers. -/
theorem mount_syncToBytes (computeTag : TagFunction) (totalBlocks : Nat) (calls : List Call)
    (v₀ v : OnDiskVolume) (raw : List UInt8) (enough : 4 ≤ totalBlocks)
    (few : totalBlocks ≤ maxV1TotalBlocks) (formatted : format totalBlocks = some v₀)
    (run : Run ((step computeTag).restrict FreshInode) v₀ calls v) (restorable : v.Restorable)
    (synced : v.syncToBytes = some (.ok raw)) :
    ∃ m, mount raw = some (.ok m) ∧ SameAnswers computeTag m v := by
  obtain ⟨inv, named, tidy⟩ := tidy_of_run formatted run
  obtain ⟨layout, m, mounted, inodes, pathMap, tags, dataBlocks⟩ :=
    inv.mount_of_sync named tidy enough few restorable.last synced
  refine ⟨m, mounted, .of_tables inodes pathMap tags fun n inode found b mem block => ?_⟩
  obtain ⟨bytes, stored⟩ := inv.referenced n inode found b mem block
  have room := restorable.room
  have some : 0 < v.dataBlocks.size := by
    rw [Nat.pos_iff_ne_zero, ne_eq, ← ExtTreeMap.length_toList, length_eq_zero_iff]
    intro empty
    exact not_mem_nil (empty ▸ ExtTreeMap.mem_toList_iff_getElem?_eq_some.mpr stored)
  rw [dataBlocks, if_pos (by omega), stored]
  exact inv.getElem?_deserializeDataBlocks restorable layout stored

theorem mount_syncToBytes_exists : ∃ v₀ v raw m, format 8 = some v₀ ∧
    Run ((step zeroTag).restrict FreshInode) v₀ [.createFile "/a", .writeFile "/a" 0 [1]] v ∧
    v.Restorable ∧ v.syncToBytes = some (.ok raw) ∧ mount raw = some (.ok m) ∧
    SameAnswers zeroTag m v := by
  obtain ⟨v, ⟨v₀, formatted, run⟩, sizes, keys, last⟩ : ∃ v,
      Reached zeroTag 8 [.createFile "/a", .writeFile "/a" 0 [1]] v ∧
      (v.bitmap.bits.length ≤ blockSize ∧ v.serializedInodeTableLen ≤ blockSize ∧
        v.integrityTags.size ≤ integrityEntriesPerBlock) ∧
      v.dataBlocks.keys = [3] ∧ v.inodes[2 ^ 64 - 1]? = none := exists_reached (by decide +kernel)
  have guarded := (run_freshInode formatted run (by decide)).1
  obtain ⟨inv, named, tidy⟩ := tidy_of_run formatted guarded
  have total := tidy.total
  have restorable : v.Restorable := by
    refine ⟨last, ?_, fun a b lower below _ mem => ?_⟩
    · rw [← length_keys, keys, total]
      decide
    · rw [← ExtTreeMap.mem_keys, keys, mem_singleton] at mem
      omega
  obtain ⟨raw, synced, -⟩ := inv.layout_of_sizes (by omega) sizes
  obtain ⟨m, mounted, same⟩ :=
      mount_syncToBytes zeroTag 8 _ v₀ v raw (by decide) (by decide) formatted
    guarded restorable synced
  exact ⟨v₀, v, raw, m, formatted, guarded, restorable, synced, mounted, same⟩

/-- The only data block of a volume of four blocks is not in its image. -/
theorem mount_loses_block : ∃ calls v raw m, Reached zeroTag 4 calls v ∧
    v.syncToBytes = some (.ok raw) ∧ mount raw = some (.ok m) ∧
    v.readFile zeroTag "/a" 0 1 = some (.ok [1]) ∧ m.readFile zeroTag "/a" 0 1 =
      some (.ok [0]) := by
  obtain ⟨v, ⟨v₀, formatted, run⟩, sizes, last, before, after⟩ : ∃ v,
      Reached zeroTag 4 [.createFile "/a", .writeFile "/a" 0 [1]] v ∧
      (v.bitmap.bits.length ≤ blockSize ∧ v.serializedInodeTableLen ≤ blockSize ∧
        v.integrityTags.size ≤ integrityEntriesPerBlock) ∧
      v.inodes[2 ^ 64 - 1]? = none ∧ v.readFile zeroTag "/a" 0 1 = some (.ok [1]) ∧
      ({ v with dataBlocks := ∅ } : OnDiskVolume).readFile zeroTag "/a" 0 1 = some (.ok [0]) :=
    exists_reached (by decide +kernel)
  obtain ⟨inv, named, tidy⟩ := tidy_of_run formatted (run_freshInode formatted run (by decide)).1
  have total := tidy.total
  obtain ⟨raw, synced, -⟩ := inv.layout_of_sizes (by omega) sizes
  obtain ⟨-, m, mounted, inodes, pathMap, tags, dataBlocks⟩ :=
    inv.mount_of_sync named tidy (by decide) (by decide) last synced
  rw [total, if_neg (by decide)] at dataBlocks
  have same : SameAnswers zeroTag m { v with dataBlocks := ∅ } :=
    .of_tables inodes pathMap tags fun _ _ _ _ _ _ => by rw [dataBlocks]
  exact ⟨_, v, raw, m, ⟨v₀, formatted, run⟩, synced, mounted, before,
    (same.read "/a" 0 1).trans after⟩

end NexaCore.Fs.OnDiskVolume
