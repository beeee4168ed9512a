import NexaCore.Fs.Proofs.Write

/-!
# The invariant of a volume

Every stored block is allocated, has its tag and is not one of the structural blocks; an inode
points to stored blocks only, and no block has two pointers. Beyond its size a file is zero. A
write keeps this in three stages: the new blocks are stored while nothing points to them, the
inode is pointed to them, and the replaced blocks are dropped.
-/

namespace NexaCore.Fs.OnDiskVolume

open Misc List Prod

variable {computeTag : TagFunction} {v v' : OnDiskVolume} {inode : Inode} {n b : Nat}

/-- The byte `k` of a file with the given block pointers. A hole reads as zero. -/
def byteAt (v : OnDiskVolume) (blocks : List Nat) (k : Nat) : UInt8 :=
  (v.dataBlocks[blocks.getD (k / blockSize) 0]?.getD []).getD (k % blockSize) 0

theorem verifyTag_computeTag (computeTag : TagFunction) (b : Nat) (block : List UInt8) :
    verifyTag computeTag b block (computeTag b block) = .ok () := by
  have none : ∀ (bytes : List UInt8) (diff : UInt8), (bytes.zip bytes).foldl
      (fun diff pair => diff ||| (pair.1 ^^^ pair.2)) diff = diff := by
    intro bytes
    induction bytes with
    | nil => exact fun _ => rfl
    | cons byte bytes ih =>
      intro diff
      rw [zip_cons_cons, foldl_cons, ih, UInt8.xor_self, UInt8.or_zero]
  simp only [verifyTag, none, if_true]

/-- What holds of the inode stored under the number `n`. -/
structure Shaped (v : OnDiskVolume) (n : Nat) (inode : Inode) : Prop where
  number : inode.inodeNumber = n
  short : inode.blocks.length ≤ 503
  size : inode.size ≤ inode.blocks.length * blockSize
  count : inode.blockCount = inode.blocks.countP (· ≠ 0)
  zero : ∀ k, inode.size ≤ k → v.byteAt inode.blocks k = 0
  directory : inode.fileType = .directory → inode.blocks = []

theorem Shaped.congr (shaped : v.Shaped n inode)
    (same : ∀ k, v'.byteAt inode.blocks k = v.byteAt inode.blocks k) : v'.Shaped n inode :=
  { shaped with zero := fun k beyond => (same k).trans (shaped.zero k beyond) }

structure Inv (computeTag : TagFunction) (v : OnDiskVolume) : Prop where
  wf : v.bitmap.Wf
  total : v.superblock.totalBlocks = v.bitmap.totalBlocks
  magic : v.superblock.magic = fsMagic
  version : v.superblock.version = fsVersion
  stored : ∀ (b : Nat) (block : List UInt8), v.dataBlocks[b]? = some block →
    3 ≤ b ∧ b < v.bitmap.totalBlocks ∧ v.bitmap.isAllocated b = true ∧ block.length = blockSize
  tagged : ∀ b : Nat, v.integrityTags[b]? = v.dataBlocks[b]?.map (computeTag b)
  reserved : ∀ b, 0 < b → b ≤ v.bitmap.totalBlocks → b ≤ 2 ∨ b = v.bitmap.totalBlocks →
    v.bitmap.isAllocated b = true
  referenced : ∀ (n : Nat) (inode : Inode), v.inodes[n]? = some inode →
    ∀ b ∈ inode.blocks, b ≠ 0 → ∃ block, v.dataBlocks[b]? = some block
  owned : ∀ (n n' : Nat) (inode inode' : Inode) (k k' b : Nat), v.inodes[n]? = some inode →
    v.inodes[n']? = some inode' → inode.blocks[k]? = some b → inode'.blocks[k']? = some b →
    b ≠ 0 → n = n' ∧ k = k'
  shaped : ∀ (n : Nat) (inode : Inode), v.inodes[n]? = some inode → v.Shaped n inode

namespace Inv

variable (inv : v.Inv computeTag)
include inv

theorem allocated_of_mem (found : v.inodes[n]? = some inode)
    (mem : b ∈ inode.blocks) (block : b ≠ 0) : v.bitmap.isAllocated b = true := by
  obtain ⟨d, data⟩ := inv.referenced n inode found b mem block
  exact (inv.stored b d data).2.2.1

theorem toStored : v.Stored where
  wf := inv.wf
  sizes b block found := (inv.stored b block found).2.2.2
  allocated _ _ found _ mem block := inv.allocated_of_mem found mem block

theorem not_stored_of_free (free : v.bitmap.isAllocated b = false) : v.dataBlocks[b]? = none := by
  cases found : v.dataBlocks[b]? with
  | none => rfl
  | some block =>
    rw [(inv.stored b block found).2.2.1] at free
    cases free

theorem not_stored_zero : v.dataBlocks[0]? = none := by
  apply inv.not_stored_of_free
  rfl

end Inv

theorem byteAt_congr {blocks : List Nat} {k : Nat} (zero : v.dataBlocks[0]? = none)
    (zero' : v'.dataBlocks[0]? = none)
    (same : ∀ b ∈ blocks, b ≠ 0 → v'.dataBlocks[b]? = v.dataBlocks[b]?) :
    v'.byteAt blocks k = v.byteAt blocks k := by
  unfold byteAt
  by_cases hole : blocks.getD (k / blockSize) 0 = 0
  · rw [hole, zero, zero']
  · rw [same _ (mem_of_getElem? (getElem?_of_getD rfl hole)) hole]

/-! ## Changes of the inodes alone -/

/-- A volume with the same blocks whose inodes are inodes of `v` or have no block. -/
theorem Inv.of_inodes (inv : v.Inv computeTag) (bitmap : v'.bitmap = v.bitmap)
    (dataBlocks : v'.dataBlocks = v.dataBlocks) (tags : v'.integrityTags = v.integrityTags)
    (total : v'.superblock.totalBlocks = v.superblock.totalBlocks)
    (magic : v'.superblock.magic = v.superblock.magic)
    (version : v'.superblock.version = v.superblock.version)
    (inodes : ∀ (n : Nat) (inode : Inode), v'.inodes[n]? = some inode →
      v.inodes[n]? = some inode ∨ (inode.blocks = [] ∧ inode.inodeNumber = n ∧ inode.size = 0 ∧
        inode.blockCount = 0)) : v'.Inv computeTag := by
  have same : ∀ blocks k, v'.byteAt blocks k = v.byteAt blocks k := by
    intro blocks k
    rw [byteAt, byteAt, dataBlocks]
  have pointed : ∀ (n : Nat) (inode : Inode) (k b : Nat), v'.inodes[n]? = some inode →
      inode.blocks[k]? = some b → v.inodes[n]? = some inode := by
    intro n inode k b found here
    rcases inodes n inode found with old | ⟨empty, -⟩
    · exact old
    · rw [empty] at here
      cases here
  refine ⟨bitmap ▸ inv.wf, by rw [total, bitmap, inv.total], magic.trans inv.magic,
    version.trans inv.version, ?_, ?_, ?_, ?_, ?_, ?_⟩
  · rw [dataBlocks, bitmap]
    exact inv.stored
  · rw [dataBlocks, tags]
    exact inv.tagged
  · rw [bitmap]
    exact inv.reserved
  · intro n inode found b mem block
    obtain ⟨k, here⟩ := getElem?_of_mem mem
    rw [dataBlocks]
    exact inv.referenced n inode (pointed n inode k b found here) b mem block
  · intro n n' inode inode' k k' b found found' here here' block
    exact inv.owned n n' inode inode' k k' b (pointed n inode k b found here)
      (pointed n' inode' k' b found' here') here here' block
  · intro n inode found
    rcases inodes n inode found with old | ⟨empty, number, size, count⟩
    · exact (inv.shaped n inode old).congr (same _)
    · refine ⟨number, by simp [empty], by simp [size], by simp [count, empty], fun k beyond => ?_,
        fun _ => empty⟩
      rw [same, byteAt, empty, getD_nil, inv.not_stored_zero]
      rfl

/-! ## Changes of the blocks alone -/

theorem Inv.released {bs : List Nat} (inv : v.Inv computeTag) (released : Releases v v' bs)
    (unused : ∀ (n : Nat) (inode : Inode), v.inodes[n]? = some inode →
      ∀ b ∈ inode.blocks, b ≠ 0 → b ∉ bs)
    (stored : ∀ b ∈ bs, b ≠ 0 → ∃ block, v.dataBlocks[b]? = some block) : v'.Inv computeTag := by
  have kept : ∀ (n : Nat) (inode : Inode), v.inodes[n]? = some inode → ∀ b ∈ inode.blocks,
      b ≠ 0 → v'.dataBlocks[b]? = v.dataBlocks[b]? := by
    intro n inode found b mem block
    rw [released.dataBlocks, if_neg fun h => unused n inode found b mem block h.2]
  have zero' : v'.dataBlocks[0]? = none := by
    rw [released.dataBlocks, if_neg fun h => h.1 rfl, inv.not_stored_zero]
  refine ⟨released.wf inv.wf, ?_, released.superblock ▸ inv.magic,
    released.superblock ▸ inv.version, ?_, ?_, ?_, ?_, ?_, ?_⟩
  · rw [released.superblock, released.total, inv.total]
  · intro b block found
    rw [released.dataBlocks] at found
    split at found
    · cases found
    · rename_i other
      rw [released.total, released.allocated, if_neg other]
      exact inv.stored b block found
  · intro b
    rw [released.integrityTags, released.dataBlocks]
    split
    · rfl
    · exact inv.tagged b
  · intro b positive inMap structural
    rw [released.total] at inMap structural
    rw [released.allocated, if_neg, inv.reserved b positive inMap structural]
    rintro ⟨block, mem⟩
    obtain ⟨d, data⟩ := stored b mem block
    have := inv.stored b d data
    omega
  · intro n inode found b mem block
    rw [released.inodes] at found
    rw [kept n inode found b mem block]
    exact inv.referenced n inode found b mem block
  · rw [released.inodes]
    exact inv.owned
  · intro n inode found
    rw [released.inodes] at found
    exact (inv.shaped n inode found).congr fun k =>
      byteAt_congr inv.not_stored_zero zero' (kept n inode found)

theorem Inv.allocate {b' : BlockBitmap} (inv : v.Inv computeTag) (wf : b'.Wf)
    (total : b'.totalBlocks = v.bitmap.totalBlocks)
    (kept : ∀ m, v.bitmap.isAllocated m = true → b'.isAllocated m = true) :
    { v with bitmap := b' }.Inv computeTag := by
  refine ⟨wf, inv.total.trans total.symm, inv.magic, inv.version, ?_, inv.tagged, ?_,
    inv.referenced, inv.owned, fun n inode found => (inv.shaped n inode found).congr fun _ => rfl⟩
  · intro b block found
    obtain ⟨lower, upper, allocated, size⟩ := inv.stored b block found
    exact ⟨lower, total ▸ upper, kept b allocated, size⟩
  · intro b positive inMap structural
    simp only [total] at inMap structural
    exact kept b (inv.reserved b positive inMap structural)

section Filled

variable {old : Nat → List UInt8} {data : List UInt8} {e : Extent} {idxs : List Nat}
  {newBlocks : List (Nat × Nat)} {b' : BlockBitmap}

theorem dataBlocks_filled_of_mem {nb : Nat × Nat} (distinct : (newBlocks.map snd).Nodup)
    (mem : nb ∈ newBlocks) :
    (filled computeTag old data e newBlocks v).dataBlocks[nb.2]? =
      some (mergedBlock (old nb.1) data e nb.1) :=
  getElem?_insertAll_of_mem distinct mem

theorem dataBlocks_filled_of_not_mem (absent : b ∉ newBlocks.map snd) :
    (filled computeTag old data e newBlocks v).dataBlocks[b]? = v.dataBlocks[b]? :=
  getElem?_insertAll_of_not_mem fun nb mem same => absent (mem_map.mpr ⟨nb, mem, same⟩)

theorem Inv.not_mem_newBlocks (inv : v.Inv computeTag)
    (allocates : Allocates idxs v.bitmap b' newBlocks)
    (found : v.inodes[n]? = some inode) (mem : b ∈ inode.blocks)
    (block : b ≠ 0) : b ∉ newBlocks.map snd := by
  intro new
  obtain ⟨nb, memNew, rfl⟩ := mem_map.mp new
  have free := (allocates.fresh nb memNew).2.2
  rw [inv.allocated_of_mem found mem block] at free
  cases free

theorem Inv.filled (inv : v.Inv computeTag) (allocates : Allocates idxs v.bitmap b' newBlocks) :
    (filled computeTag old data e newBlocks { v with bitmap := b' }).Inv computeTag := by
  have grown : { v with bitmap := b' }.Inv computeTag := inv.allocate allocates.wf allocates.total
    fun m allocated => (allocates.allocated m).mpr (.inr allocated)
  have kept : ∀ (n : Nat) (inode : Inode), v.inodes[n]? = some inode → ∀ b ∈ inode.blocks, b ≠ 0 →
      (OnDiskVolume.filled computeTag old data e newBlocks
        { v with bitmap := b' }).dataBlocks[b]? = v.dataBlocks[b]? :=
    fun n inode found b mem block =>
      dataBlocks_filled_of_not_mem (inv.not_mem_newBlocks allocates found mem block)
  have positive : 0 ∉ newBlocks.map snd := by
    intro mem
    obtain ⟨nb, mem, zero⟩ := mem_map.mp mem
    have := (allocates.fresh nb mem).1
    omega
  refine ⟨grown.wf, grown.total, grown.magic, grown.version, ?_, ?_, grown.reserved, ?_,
    grown.owned, ?_⟩
  · intro b block found
    by_cases new : b ∈ newBlocks.map snd
    · obtain ⟨nb, mem, rfl⟩ := mem_map.mp new
      rw [dataBlocks_filled_of_mem allocates.distinct mem] at found
      obtain rfl := Option.some_inj.mp found
      obtain ⟨above, inMap, free⟩ := allocates.fresh nb mem
      have ordinary : ¬(nb.2 ≤ 2 ∨ nb.2 = v.bitmap.totalBlocks) := by
        intro structural
        rw [inv.reserved nb.2 above inMap structural] at free
        cases free
      have size := length_mergedBlock (old nb.1) data e nb.1
      have upper : nb.2 < b'.totalBlocks := by
        rw [allocates.total]
        omega
      exact ⟨by omega, upper, (allocates.allocated nb.2).mpr (.inl new), size⟩
    · rw [dataBlocks_filled_of_not_mem new] at found
      exact grown.stored b block found
  · intro b
    by_cases new : b ∈ newBlocks.map snd
    · obtain ⟨nb, mem, rfl⟩ := mem_map.mp new
      rw [dataBlocks_filled_of_mem allocates.distinct mem, Option.map_some]
      exact getElem?_insertAll_of_mem allocates.distinct mem
    · rw [dataBlocks_filled_of_not_mem new, ← inv.tagged b]
      exact getElem?_insertAll_of_not_mem fun nb mem same => new (mem_map.mpr ⟨nb, mem, same⟩)
  · intro n inode found b mem block
    rw [kept n inode found b mem block]
    exact inv.referenced n inode found b mem block
  · intro n inode found
    exact (inv.shaped n inode found).congr fun k => byteAt_congr inv.not_stored_zero
      ((dataBlocks_filled_of_not_mem positive).trans inv.not_stored_zero) (kept n inode found)

end Filled

/-! ## A new set of pointers -/

theorem Inv.repointed (inv : v.Inv computeTag)
    (stored : ∀ b ∈ inode.blocks, b ≠ 0 → ∃ block, v.dataBlocks[b]? = some block)
    (inner : ∀ k k' b : Nat, inode.blocks[k]? = some b → inode.blocks[k']? = some b →
      b ≠ 0 → k = k')
    (outer : ∀ (n' : Nat) (other : Inode), n' ≠ n → v.inodes[n']? = some other →
      ∀ b ∈ inode.blocks, b ≠ 0 → b ∉ other.blocks)
    (shaped : v.Shaped n inode) :
    { v with inodes := v.inodes.insert n inode }.Inv computeTag := by
  refine ⟨inv.wf, inv.total, inv.magic, inv.version, inv.stored, inv.tagged,
    inv.reserved, ?_, ?_, ?_⟩
  · intro m i found b mem block
    rcases insert_eq_some.mp found with ⟨-, rfl⟩ | ⟨-, found⟩
    · exact stored b mem block
    · exact inv.referenced m i found b mem block
  · intro m m' i i' k k' b found found' here here' block
    rcases insert_eq_some.mp found with ⟨rfl, rfl⟩ | ⟨apart, before⟩
    · rcases insert_eq_some.mp found' with ⟨rfl, rfl⟩ | ⟨apart, before'⟩
      · exact ⟨rfl, inner k k' b here here' block⟩
      · exact absurd (mem_of_getElem? here')
          (outer m' i' apart before' b (mem_of_getElem? here) block)
    · rcases insert_eq_some.mp found' with ⟨rfl, rfl⟩ | ⟨-, before'⟩
      · exact absurd (mem_of_getElem? here)
          (outer m i apart before b (mem_of_getElem? here') block)
      · exact inv.owned m m' i i' k k' b before before' here here' block
  · intro m i found
    rcases insert_eq_some.mp found with ⟨rfl, rfl⟩ | ⟨-, found⟩
    · exact shaped.congr fun _ => rfl
    · exact (inv.shaped m i found).congr fun _ => rfl

end NexaCore.Fs.OnDiskVolume
