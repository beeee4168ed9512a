import NexaCore.Fs.Volume
import NexaCore.Misc.Blocks
import NexaCore.Fs.Proofs.Bitmap
import NexaCore.Fs.Proofs.InodeTable

/-!
# The effect of a write

`write_file` splits the extent of a write at the block boundaries, allocates a block for every
part, fills the new blocks and drops the blocks they replace. `written` is the volume that a
successful write leaves; `writeFile_cases` lists everything the call can do.
-/

namespace NexaCore.Fs.OnDiskVolume

open Misc List BlockBitmap Extent Nat Prod Option

/-! ## Extents -/

namespace Extent

variable {e : Extent} {idx k n : Nat}

/-- The point at which the block `idx` cuts the extent: its part in that block lies between
the cuts of `idx` and `idx + 1`. -/
def cut (e : Extent) (idx : Nat) : Nat := min e.endOffset (max e.offset (idx * blockSize))

theorem mem_blockIdxs : idx ∈ e.blockIdxs ↔ e.first ≤ idx ∧ idx ≤ e.last := by
  rw [blockIdxs, mem_range'_1]
  omega

section

variable (nonempty : e.offset < e.endOffset)

include nonempty

theorem first_le_last : e.first ≤ e.last := by
  simp only [first, last, blockSize]
  omega

theorem cut_first : e.cut e.first = e.offset := by
  simp only [cut, first, blockSize]
  omega

theorem cut_last : e.cut (e.last + 1) = e.endOffset := by
  simp only [cut, last, blockSize]
  omega

theorem blockStart_eq (mem : idx ∈ e.blockIdxs) :
    idx * blockSize + e.blockStart idx = e.cut idx ∧
      idx * blockSize + e.blockEnd idx = e.cut (idx + 1) ∧ e.offset ≤ e.cut idx ∧
      e.blockStart idx < e.blockEnd idx ∧ e.blockEnd idx ≤ blockSize := by
  obtain ⟨lower, upper⟩ := mem_blockIdxs.mp mem
  unfold blockStart blockEnd
  split_ifs <;> simp only [first, last, cut, blockSize] at * <;> omega

end

theorem cut_le (e : Extent) (idx : Nat) : e.cut idx ≤ e.endOffset := min_le_left _ _

theorem endOffset_le (e : Extent) : e.endOffset ≤ (e.last + 1) * blockSize := by
  simp only [last, blockSize]
  omega

theorem mem_blockIdxs_of_mem (lower : e.offset ≤ k) (upper : k < e.endOffset) :
    k / blockSize ∈ e.blockIdxs := by
  rw [mem_blockIdxs]
  simp only [first, last, blockSize]
  omega

end Extent

/-! ## Allocating the blocks -/

variable {idxs : List Nat} {b b' : BlockBitmap} {newBlocks : List (Nat × Nat)}

/-- Every index has a block of its own that was free before. -/
structure Allocates (idxs : List Nat) (b b' : BlockBitmap) (newBlocks : List (Nat × Nat)) :
    Prop where
  wf : b'.Wf
  total : b'.totalBlocks = b.totalBlocks
  indices : newBlocks.map Prod.fst = idxs
  distinct : (newBlocks.map Prod.snd).Nodup
  fresh : ∀ nb ∈ newBlocks, 0 < nb.2 ∧ nb.2 ≤ b.totalBlocks ∧ b.isAllocated nb.2 = false
  allocated : ∀ m, b'.isAllocated m = true ↔
    m ∈ newBlocks.map Prod.snd ∨ b.isAllocated m = true

/-- The map had too few free blocks and has none now. -/
structure RunsOut (idxs : List Nat) (b b' : BlockBitmap) : Prop where
  wf : b'.Wf
  total : b'.totalBlocks = b.totalBlocks
  short : b.freeCount < idxs.length
  empty : b'.freeCount = 0
  same : b.freeCount = 0 → b' = b
  kept : ∀ m, b.isAllocated m = true → b'.isAllocated m = true

theorem Allocates.cons {m : BlockBitmap} (allocated : b.allocate = some (n, m))
    (rest : Allocates idxs m b' newBlocks) : Allocates (idx :: idxs) b b'
    ((idx, n) :: newBlocks) := by
  have total := (allocate_eq_some allocated).1.total
  obtain ⟨above, below, fresh, bits⟩ := allocate_isAllocated allocated
  have apart : n ∉ newBlocks.map snd := by
    intro mem
    obtain ⟨nb, mem, same⟩ := mem_map.mp mem
    have impossible := (rest.fresh nb mem).2.2
    rw [same, bits n, if_pos rfl] at impossible
    cases impossible
  refine ⟨rest.wf, rest.total.trans total, by simp [rest.indices],
    nodup_cons.mpr ⟨apart, rest.distinct⟩, ?_, fun k => ?_⟩
  · intro nb mem
    rcases mem_cons.mp mem with rfl | mem
    · exact ⟨above, below, fresh⟩
    · obtain ⟨positive, inMap, unset⟩ := rest.fresh nb mem
      rw [bits nb.2] at unset
      split at unset
      · cases unset
      · exact ⟨positive, total ▸ inMap, unset⟩
  · rw [rest.allocated k, bits k]
    by_cases same : k = n <;> simp [same]

theorem RunsOut.cons {m : BlockBitmap} (allocated : b.allocate = some (n, m))
    (rest : RunsOut idxs m b') : RunsOut (idx :: idxs) b b' := by
  obtain ⟨⟨-, -, -, total, -, count⟩, -, positive⟩ := allocate_eq_some allocated
  obtain ⟨-, -, -, bits⟩ := allocate_isAllocated allocated
  have short := rest.short
  refine ⟨rest.wf, rest.total.trans total, ?_, rest.empty, fun none => absurd none positive.ne',
    fun k set => rest.kept k ?_⟩
  · rw [if_pos rfl] at count
    rw [length_cons]
    omega
  · rw [bits k]
    split
    · rfl
    · exact set

/-- The allocation loop either serves every index or uses up the map. -/
theorem allocateBlocks_cases (wf : b.Wf) (idxs : List Nat) :
    (∃ newBlocks b', allocateBlocks idxs b = (some newBlocks, b') ∧ idxs.length ≤ b.freeCount ∧
      Allocates idxs b b' newBlocks) ∨
    ∃ b', allocateBlocks idxs b = (none, b') ∧ RunsOut idxs b b' := by
  induction idxs generalizing b with
  | nil =>
    exact .inl ⟨[], b, rfl, zero_le _, ⟨wf, rfl, rfl, nodup_nil, by simp, by simp⟩⟩
  | cons idx idxs ih =>
    cases allocated : b.allocate with
    | none =>
      have empty := wf.allocate_eq_none.mp allocated
      exact .inr ⟨b, by simp [allocateBlocks, allocated], wf, rfl, by simp [empty], empty,
        fun _ => rfl, fun _ => id⟩
    | some taken =>
      obtain ⟨n, m⟩ := taken
      obtain ⟨⟨-, -, -, -, -, count⟩, -, positive⟩ := allocate_eq_some allocated
      rcases ih (wf.allocate allocated) with ⟨newBlocks, b', run, enough, rest⟩ | ⟨b', run, rest⟩
      · refine .inl ⟨(idx, n) :: newBlocks, b', by simp [allocateBlocks, allocated, run], ?_,
          rest.cons allocated⟩
        rw [if_pos rfl] at count
        rw [length_cons]
        omega
      · exact .inr ⟨b', by simp [allocateBlocks, allocated, run], rest.cons allocated⟩

/-! ## Filling the blocks -/

/-- The bytes of the block `idx` after `data` was written over the old bytes. -/
def mergedBlock (old : List UInt8) (data : List UInt8) (e : Extent) (idx : Nat) : List UInt8 :=
  (List.range blockSize).map fun k =>
    if e.offset ≤ idx * blockSize + k ∧ idx * blockSize + k < e.endOffset then
      data.getD (idx * blockSize + k - e.offset) 0
    else old.getD k 0

theorem length_mergedBlock (old data : List UInt8) (e : Extent) (idx : Nat) :
    (mergedBlock old data e idx).length = blockSize := by
  simp [mergedBlock]

theorem getElem?_mergedBlock (old data : List UInt8) (e : Extent) (idx : Nat)
    (below : k < blockSize) :
    (mergedBlock old data e idx)[k]? = some
      (if e.offset ≤ idx * blockSize + k ∧ idx * blockSize + k < e.endOffset then
        data.getD (idx * blockSize + k - e.offset) 0
      else old.getD k 0) := by
  simp [mergedBlock, below]

/-- The three pieces that `write_file` puts together are the merged block. -/
theorem pieces_eq_mergedBlock {old data : List UInt8} {e : Extent}
    (size : old.length = blockSize) (nonempty : e.offset < e.endOffset)
    (covered : e.endOffset = e.offset + data.length) (mem : idx ∈ e.blockIdxs) :
    old.take (e.blockStart idx) ++
      (data.drop (e.cut idx - e.offset)).take (e.blockEnd idx - e.blockStart idx) ++
      old.drop (e.blockEnd idx) = mergedBlock old data e idx := by
  obtain ⟨start, stop, lower, order, inBlock⟩ := e.blockStart_eq nonempty mem
  have upper := e.cut_le (idx + 1)
  have width : ((data.drop (e.cut idx - e.offset)).take
      (e.blockEnd idx - e.blockStart idx)).length = e.blockEnd idx - e.blockStart idx := by
    rw [length_take, length_drop]
    omega
  have whole : e.blockStart idx + (e.blockEnd idx - e.blockStart idx) = e.blockEnd idx := by omega
  have pieces : ∀ k, (overlay old (e.blockStart idx) ((data.drop (e.cut idx - e.offset)).take
      (e.blockEnd idx - e.blockStart idx)))[k]? = _ := getElem?_overlay (by omega)
  rw [overlay, width, whole] at pieces
  apply ext_getElem?
  intro k
  rw [pieces]
  by_cases below : k < blockSize
  · have inside : e.blockStart idx ≤ k ∧ k < e.blockEnd idx ↔
        e.offset ≤ idx * blockSize + k ∧ idx * blockSize + k < e.endOffset := by
      simp only [cut, blockSize] at *
      omega
    rw [getElem?_mergedBlock _ _ _ _ below, if_congr inside rfl rfl]
    split
    · have position : e.cut idx - e.offset + (k - e.blockStart idx) =
          idx * blockSize + k - e.offset := by omega
      have inData : idx * blockSize + k - e.offset < data.length := by omega
      rw [getElem?_take_of_lt (by omega), getElem?_drop, position]
      simp [inData]
    · simp [size, below]
  · rw [if_neg (by omega), getElem?_eq_none (by omega),
      getElem?_eq_none (by rw [length_mergedBlock]; omega)]

variable {computeTag : TagFunction} {v : OnDiskVolume} {oldBlocks : List Nat} {data : List UInt8}
  {e : Extent}

/-- The volume after the loop that fills the new blocks, whose old contents are `old`. -/
def filled (computeTag : TagFunction) (old : Nat → List UInt8) (data : List UInt8) (e : Extent)
    (newBlocks : List (Nat × Nat)) (v : OnDiskVolume) : OnDiskVolume :=
  { v with
    dataBlocks := insertAll Prod.snd (fun nb => mergedBlock (old nb.1) data e nb.1) newBlocks
      v.dataBlocks
    integrityTags := insertAll Prod.snd
      (fun nb => computeTag nb.2 (mergedBlock (old nb.1) data e nb.1)) newBlocks
      v.integrityTags }

theorem seedBlock_congr {v' : OnDiskVolume}
    (same : ∀ b ∈ oldBlocks, v'.dataBlocks[b]? = v.dataBlocks[b]?) (idx : Nat) :
    v'.seedBlock oldBlocks idx = v.seedBlock oldBlocks idx := by
  unfold seedBlock
  cases found : oldBlocks[idx]? with
  | none => rfl
  | some b => simp only [same b (mem_of_getElem? found)]

theorem fillBlock_eq {old : Nat → List UInt8} (nonempty : e.offset < e.endOffset)
    (covered : e.endOffset = e.offset + data.length)
    (sizes : ∀ idx, (old idx).length = blockSize)
    (seeds : ∀ idx, v.seedBlock oldBlocks idx = old idx) (mem : idx ∈ e.blockIdxs) :
    fillBlock computeTag oldBlocks data e (v, e.cut idx - e.offset) (idx, n) =
      some (filled computeTag old data e [(idx, n)] v, e.cut (idx + 1) - e.offset) := by
  obtain ⟨start, stop, lower, order, inBlock⟩ := e.blockStart_eq nonempty mem
  have upper := e.cut_le (idx + 1)
  have count : e.cut idx - e.offset + (e.blockEnd idx - e.blockStart idx) =
      e.cut (idx + 1) - e.offset := by omega
  have ranges : e.blockStart idx ≤ e.blockEnd idx ∧
      e.cut idx - e.offset + (e.blockEnd idx - e.blockStart idx) ≤ data.length ∧
      e.blockEnd idx ≤ (v.seedBlock oldBlocks idx).length := by
    refine ⟨order.le, by omega, ?_⟩
    rw [seeds, sizes]
    exact inBlock
  simp only [fillBlock]
  rw [if_pos ranges, seeds, pieces_eq_mergedBlock (sizes idx) nonempty covered mem, count]
  rfl

theorem foldlM_fillBlock {old : Nat → List UInt8}
    (nonempty : e.offset < e.endOffset) (covered : e.endOffset = e.offset + data.length)
    (sizes : ∀ idx, (old idx).length = blockSize)
    (seeds : ∀ idx, v.seedBlock oldBlocks idx = old idx)
    (fresh : ∀ nb ∈ newBlocks, nb.2 ∉ oldBlocks)
    (indices : newBlocks.map fst = range' idx newBlocks.length)
    (first : e.first ≤ idx) (last : idx + newBlocks.length = e.last + 1) :
    newBlocks.foldlM (fillBlock computeTag oldBlocks data e) (v, e.cut idx - e.offset) =
      some (filled computeTag old data e newBlocks v, data.length) := by
  induction newBlocks generalizing v idx with
  | nil =>
    have stop : idx = e.last + 1 := by simpa using last
    rw [stop, e.cut_last nonempty, covered, Nat.add_sub_cancel_left]
    rfl
  | cons nb newBlocks ih =>
    rw [map_cons, length_cons, range'_succ] at indices
    obtain ⟨here, rest⟩ := cons.inj indices
    rw [length_cons] at last
    have mem : nb.1 ∈ e.blockIdxs := mem_blockIdxs.mpr (by omega)
    have kept : ∀ b ∈ oldBlocks,
        (filled computeTag old data e [nb] v).dataBlocks[b]? = v.dataBlocks[b]? := by
      intro b mem
      apply getElem?_insertAll_of_not_mem
      intro nb' mem' same
      rw [mem_singleton.mp mem'] at same
      exact fresh nb (.head _) (same ▸ mem)
    rw [foldlM_cons, ← here, fillBlock_eq nonempty covered sizes seeds mem]
    exact ih (fun idx => (seedBlock_congr kept idx).trans (seeds idx))
      (fun nb mem => fresh nb (.tail _ mem)) (here ▸ rest) (by omega) (by omega)

/-! ## Block pointers -/

variable {blocks : List Nat}

theorem getElem?_of_getD {b : Nat} (pointer : blocks.getD k 0 = b) (block : b ≠ 0) :
    blocks[k]? = some b := by
  rw [getD_eq_getElem?_getD] at pointer
  cases here : blocks[k]? with
  | none =>
    rw [here, getD_none] at pointer
    exact absurd pointer.symm block
  | some b' =>
    rw [here, getD_some] at pointer
    rw [pointer]

theorem length_setPointers :
    (setPointers blocks newBlocks e).length = max blocks.length (e.last + 1) := by
  have same : ∀ bs : List Nat, (newBlocks.foldl
      (fun bs (nb : Nat × Nat) => bs.set nb.1 nb.2) bs).length = bs.length := by
    intro bs
    induction newBlocks generalizing bs with
    | nil => rfl
    | cons nb newBlocks ih => rw [foldl_cons, ih, length_set]
  rw [setPointers, same, length_append, length_replicate]
  omega

theorem getElem?_foldl_set_of_not_mem {bs : List Nat}
    (absent : k ∉ newBlocks.map fst) :
    (newBlocks.foldl (fun bs (nb : Nat × Nat) => bs.set nb.1 nb.2) bs)[k]? = bs[k]? := by
  induction newBlocks generalizing bs with
  | nil => rfl
  | cons nb newBlocks ih =>
    rw [map_cons, mem_cons, not_or] at absent
    rw [foldl_cons, ih absent.2, getElem?_set_ne (Ne.symm absent.1)]

theorem getElem?_foldl_set_of_mem {bs : List Nat} {nb : Nat × Nat}
    (distinct : (newBlocks.map fst).Nodup) (mem : nb ∈ newBlocks) (below : nb.1 < bs.length) :
    (newBlocks.foldl (fun bs (nb : Nat × Nat) => bs.set nb.1 nb.2) bs)[nb.1]? = some nb.2 := by
  induction newBlocks generalizing bs with
  | nil => cases mem
  | cons nb' newBlocks ih =>
    rw [map_cons, nodup_cons] at distinct
    rw [foldl_cons]
    rcases mem_cons.mp mem with rfl | mem
    · rw [getElem?_foldl_set_of_not_mem distinct.1, getElem?_set_self below]
    · exact ih distinct.2 mem (by rwa [length_set])

/-- Pointers outside the extent are kept; the gap before it is filled with zeros. -/
theorem getD_setPointers_of_not_mem (absent : k ∉ newBlocks.map fst) :
    (setPointers blocks newBlocks e).getD k 0 = blocks.getD k 0 := by
  rw [getD_eq_getElem?_getD, setPointers, getElem?_foldl_set_of_not_mem absent,
    getD_eq_getElem?_getD]
  by_cases below : k < blocks.length
  · rw [getElem?_append_left below]
  · rw [getElem?_append_right (Nat.not_lt.mp below),
      getElem?_eq_none (Nat.not_lt.mp below), getElem?_replicate]
    split <;> rfl

theorem getElem?_setPointers_of_mem {nb : Nat × Nat} (indices : newBlocks.map fst = e.blockIdxs)
    (mem : nb ∈ newBlocks) : (setPointers blocks newBlocks e)[nb.1]? = some nb.2 := by
  have inExtent : nb.1 ∈ e.blockIdxs := indices ▸ mem_map.mpr ⟨nb, mem, rfl⟩
  apply getElem?_foldl_set_of_mem _ mem
  · have upper := (mem_blockIdxs.mp inExtent).2
    rw [length_append, length_replicate]
    omega
  · rw [indices]
    exact nodup_range'

/-! ## Releasing blocks -/

/-- `v'` is `v` without the blocks `bs`. -/
structure Releases (v v' : OnDiskVolume) (bs : List Nat) : Prop where
  superblock : v'.superblock = v.superblock
  inodes : v'.inodes = v.inodes
  pathMap : v'.pathMap = v.pathMap
  nextInode : v'.nextInode = v.nextInode
  dataBlocks : ∀ b, v'.dataBlocks[b]? = if b ≠ 0 ∧ b ∈ bs then none else v.dataBlocks[b]?
  integrityTags : ∀ b, v'.integrityTags[b]? =
    if b ≠ 0 ∧ b ∈ bs then none else v.integrityTags[b]?
  total : v'.bitmap.totalBlocks = v.bitmap.totalBlocks
  allocated : ∀ b, v'.bitmap.isAllocated b =
    if b ≠ 0 ∧ b ∈ bs then false else v.bitmap.isAllocated b
  wf : v.bitmap.Wf → v'.bitmap.Wf

theorem releases_releaseBlock (v : OnDiskVolume) (b : Nat) : Releases v (v.releaseBlock b) [b] := by
  unfold releaseBlock
  by_cases hole : b = 0
  · subst hole
    rw [if_neg (by simp)]
    constructor <;> simp
  · rw [if_pos hole]
    refine ⟨rfl, rfl, rfl, rfl, fun k => ?_, fun k => ?_, totalBlocks_free _ _,
      fun k => ?_, fun wf => wf.free b⟩
    all_goals by_cases same : k = b <;> simp [getElem?_erase_eq, isAllocated_free, same, hole]

theorem Releases.trans {m v' : OnDiskVolume} {as bs : List Nat} (first : Releases v m as)
    (second : Releases m v' bs) : Releases v v' (as ++ bs) := by
  refine ⟨second.superblock.trans first.superblock, second.inodes.trans first.inodes,
    second.pathMap.trans first.pathMap, second.nextInode.trans first.nextInode, fun b => ?_,
    fun b => ?_, second.total.trans first.total, fun b => ?_, fun wf => second.wf (first.wf wf)⟩
  · rw [second.dataBlocks, first.dataBlocks]
    split_ifs <;> simp_all
  · rw [second.integrityTags, first.integrityTags]
    split_ifs <;> simp_all
  · rw [second.allocated, first.allocated]
    split_ifs <;> simp_all

theorem releases_foldl (v : OnDiskVolume) (bs : List Nat) :
    Releases v (bs.foldl releaseBlock v) bs := by
  induction bs generalizing v with
  | nil => constructor <;> simp
  | cons b bs ih => exact (releases_releaseBlock v b).trans (ih (v.releaseBlock b))

/-! ## The whole call -/

/-- The old pointers at the indices of the new blocks. -/
def replaced (oldBlocks : List Nat) (newBlocks : List (Nat × Nat)) : List Nat :=
  newBlocks.map fun nb => oldBlocks.getD nb.1 0

/-- The volume whose inode `n` points to the new blocks. -/
def updated (computeTag : TagFunction) (v : OnDiskVolume) (n : Nat) (inode : Inode)
    (data : List UInt8) (e : Extent) (newBlocks : List (Nat × Nat)) (bitmap : BlockBitmap) :
    OnDiskVolume :=
  { filled computeTag (v.seedBlock inode.blocks) data e newBlocks { v with bitmap } with
    inodes := v.inodes.insert n (updateInode inode newBlocks e) }

def written (computeTag : TagFunction) (v : OnDiskVolume) (n : Nat) (inode : Inode)
    (data : List UInt8) (e : Extent) (newBlocks : List (Nat × Nat)) (bitmap : BlockBitmap) :
    OnDiskVolume :=
  let m := (replaced inode.blocks newBlocks).foldl releaseBlock
    (updated computeTag v n inode data e newBlocks bitmap)
  { m with superblock := { m.superblock with freeBlocks := m.bitmap.freeCount } }

/-- The calls of `write_file` that get to the allocation of blocks. -/
structure Admitted (v : OnDiskVolume) (path : String) (offset : Nat) (data : List UInt8) (n : Nat)
    (inode : Inode) : Prop where
  found : v.lookup path = .ok (n, inode)
  regular : inode.fileType = .regularFile
  nonempty : data ≠ []
  table : v.serializedInodeTableLen + inodeGrowth inode.blocks (.ofWrite offset data) ≤ blockSize
  tags : v.integrityTags.size + newTagEntries inode.blocks (.ofWrite offset data) ≤
    integrityEntriesPerBlock

theorem lookup_eq_ok {path : String} {inode : Inode} :
    v.lookup path = .ok (n, inode) ↔ v.pathMap[path]? = some n ∧ v.inodes[n]? = some inode := by
  unfold lookup
  cases found : v.pathMap[path]? with
  | none => simp
  | some m =>
    cases here : v.inodes[m]? with
    | none =>
      simp only [here, some_inj, reduceCtorEq, false_iff, not_and]
      rintro rfl
      simp [here]
    | some i =>
      simp only [here, Except.ok.injEq, Prod.mk.injEq, some_inj]
      refine and_congr_right ?_
      rintro rfl
      simp [here]

namespace Admitted

variable {path : String} {offset n : Nat} {inode : Inode}

section

variable (admitted : v.Admitted path offset data n inode)

include admitted

/-- The guard on the inode table bounds the extent of an admitted write. -/
theorem last_lt : max inode.blocks.length ((ofWrite offset data).last + 1) ≤ 503 := by
  have record : 66 + 8 * inode.blocks.length ≤ (serializeInodes v.inodes v.pathMap).length :=
    length_serializeInodes_ge (lookup_eq_ok.mp admitted.found).2
  have table := admitted.table
  simp only [serializedInodeTableLen, inodeGrowth, blockSize] at table
  omega

theorem covered : (ofWrite offset data).endOffset = offset + data.length := by
  have bound := admitted.last_lt
  simp only [ofWrite, last, blockSize, u64Max] at *
  omega

theorem nonempty_extent : (ofWrite offset data).offset < (ofWrite offset data).endOffset := by
  have positive := length_pos_of_ne_nil admitted.nonempty
  rw [admitted.covered]
  simp only [ofWrite]
  omega

end

end Admitted

/-- The stored blocks have their size and every block that an inode points to is allocated. -/
structure Stored (v : OnDiskVolume) : Prop where
  wf : v.bitmap.Wf
  sizes : ∀ (b : Nat) (block : List UInt8), v.dataBlocks[b]? = some block →
    block.length = blockSize
  allocated : ∀ (n : Nat) (inode : Inode), v.inodes[n]? = some inode → ∀ b ∈ inode.blocks, b ≠ 0 →
    v.bitmap.isAllocated b = true

theorem Stored.length_seedBlock (stored : v.Stored) (oldBlocks : List Nat) (idx : Nat) :
    (v.seedBlock oldBlocks idx).length = blockSize := by
  simp only [seedBlock]
  cases found : oldBlocks[idx]? with
  | none => simp
  | some b =>
    cases block : v.dataBlocks[b]? with
    | none => by_cases hole : b = 0 <;> simp [hole, block]
    | some d =>
      have size := stored.sizes b d block
      by_cases hole : b = 0 <;> simp [hole, block, size]

theorem writeFile_cases (computeTag : TagFunction) (stored : v.Stored) (path : String)
    (offset : Nat) (data : List UInt8) :
    (∃ err, v.writeFile computeTag path offset data = some (.error err, v) ∧
      ∀ n inode, ¬v.Admitted path offset data n inode) ∨
    (data = [] ∧ v.writeFile computeTag path offset data = some (.ok 0, v)) ∨
    ∃ n inode, v.Admitted path offset data n inode ∧
      ((∃ newBlocks b', (ofWrite offset data).blockIdxs.length ≤ v.bitmap.freeCount ∧
        Allocates (ofWrite offset data).blockIdxs v.bitmap b' newBlocks ∧
        v.writeFile computeTag path offset data = some (.ok data.length,
          written computeTag v n inode data (.ofWrite offset data) newBlocks b')) ∨
      ∃ b', RunsOut (ofWrite offset data).blockIdxs v.bitmap b' ∧
        v.writeFile computeTag path offset data =
          some (.error .noSpace, { v with bitmap := b' })) := by
  unfold writeFile
  cases found : v.lookup path with
  | error err =>
    refine .inl ⟨err, rfl, fun n inode admitted => ?_⟩
    rw [admitted.found] at found
    cases found
  | ok entry =>
    obtain ⟨n, inode⟩ := entry
    simp only
    have refused (guard : ¬v.Admitted path offset data n inode) :
        ∀ n' inode', ¬v.Admitted path offset data n' inode' := by
      intro n' inode' admitted
      obtain ⟨rfl, rfl⟩ : n = n' ∧ inode = inode' := by
        simpa using found.symm.trans admitted.found
      exact guard admitted
    by_cases regular : inode.fileType ≠ .regularFile
    · rw [if_pos regular]
      exact .inl ⟨_, rfl, refused fun admitted => regular admitted.regular⟩
    rw [if_neg regular]
    by_cases empty : data = []
    · rw [if_pos empty]
      exact .inr (.inl ⟨empty, rfl⟩)
    rw [if_neg empty]
    by_cases table : v.serializedInodeTableLen + inodeGrowth inode.blocks (.ofWrite offset data) >
        blockSize
    · rw [if_pos table]
      exact .inl ⟨_, rfl, refused fun admitted => Nat.not_lt.mpr admitted.table table⟩
    rw [if_neg table]
    by_cases tags : v.integrityTags.size + newTagEntries inode.blocks (.ofWrite offset data) >
        integrityEntriesPerBlock
    · rw [if_pos tags]
      exact .inl ⟨_, rfl, refused fun admitted => Nat.not_lt.mpr admitted.tags tags⟩
    rw [if_neg tags]
    have admitted : v.Admitted path offset data n inode :=
      ⟨found, not_not.mp regular, empty, Nat.not_lt.mp table, Nat.not_lt.mp tags⟩
    refine .inr (.inr ⟨n, inode, admitted, ?_⟩)
    rcases allocateBlocks_cases stored.wf (ofWrite offset data).blockIdxs with
      ⟨newBlocks, b', run, enough, allocates⟩ | ⟨b', run, out⟩
    · refine .inl ⟨newBlocks, b', enough, allocates, ?_⟩
      have nonempty := admitted.nonempty_extent
      have fresh : ∀ nb ∈ newBlocks, nb.2 ∉ inode.blocks := by
        intro nb mem old
        obtain ⟨positive, -, free⟩ := allocates.fresh nb mem
        rw [stored.allocated n inode (lookup_eq_ok.mp found).2 nb.2 old positive.ne'] at free
        cases free
      have indices := allocates.indices
      have count : newBlocks.length = (ofWrite offset data).last + 1 -
          (ofWrite offset data).first := by
        rw [← length_map fst, indices, blockIdxs, length_range']
      have order := first_le_last nonempty
      rw [blockIdxs, ← count] at indices
      have fill : newBlocks.foldlM (fillBlock computeTag inode.blocks data (.ofWrite offset data))
          ({ v with bitmap := b' }, 0) = some (filled computeTag (v.seedBlock inode.blocks) data
            (.ofWrite offset data) newBlocks { v with bitmap := b' }, data.length) := by
        rw [← Nat.sub_self (ofWrite offset data).offset]
        nth_rewrite 1 [← cut_first nonempty]
        exact foldlM_fillBlock nonempty admitted.covered (stored.length_seedBlock inode.blocks)
          (fun _ => rfl) fresh indices le_rfl (by omega)
      rw [run]
      simp only [fill]
      rw [written, replaced, foldl_map]
      rfl
    · exact .inr ⟨b', out, by rw [run]⟩

end NexaCore.Fs.OnDiskVolume
