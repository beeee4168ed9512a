import NexaCore.Fs.Proofs.Calls

/-!
# The consistency checker and the file operations

On a volume with the invariant `fsck` reports nothing exactly if the free count of the superblock
is that of the bitmap and no inode has a hole: `fsck` takes the pointer 0 of a hole for a block
that is not allocated. Calls that all succeed keep both, unless a write leaves a gap after the
last block of its file.
-/

namespace NexaCore.Fs.OnDiskVolume

open Misc Std List Option ExtTreeMap Prod

variable {computeTag : TagFunction} {v v' : OnDiskVolume}

/-! ## What the checker accepts -/

/-- The superblock counts the free blocks and no inode has a hole. -/
structure Solid (v : OnDiskVolume) : Prop where
  counted : v.bitmap.freeCount = v.superblock.freeBlocks
  dense : ∀ (n : Nat) (inode : Inode), v.inodes[n]? = some inode → 0 ∉ inode.blocks

theorem Inv.referenceErrors_eq_nil (inv : v.Inv computeTag) : v.referenceErrors = [] ↔
    ∀ (n : Nat) (inode : Inode), v.inodes[n]? = some inode → 0 ∉ inode.blocks := by
  unfold referenceErrors
  rw [flatMap_eq_nil_iff]
  constructor
  · intro clean n inode found hole
    have none := clean (n, inode) (mem_toList_iff_getElem?_eq_some.mpr found)
    rw [map_eq_nil_iff, filter_eq_nil_iff] at none
    exact none 0 hole rfl
  · rintro dense ⟨n, inode⟩ mem
    have found := mem_toList_iff_getElem?_eq_some.mp mem
    rw [map_eq_nil_iff, filter_eq_nil_iff]
    intro b pointer
    have block : b ≠ 0 := fun hole => dense n inode found (hole ▸ pointer)
    rw [inv.allocated_of_mem found pointer block]
    decide

theorem Inv.tagErrors_eq_nil (inv : v.Inv computeTag) : v.tagErrors computeTag = [] := by
  unfold tagErrors
  rw [filterMap_eq_nil_iff]
  rintro ⟨b, block⟩ mem
  have tag := inv.tagged b
  rw [mem_toList_iff_getElem?_eq_some.mp mem, map_some] at tag
  simp only [tag, verifyTag_computeTag]

/-- The report of `fsck` is clean exactly on the solid volumes. -/
theorem Inv.isClean_fsck (inv : v.Inv computeTag) :
    (v.fsck computeTag).isClean = true ↔ v.Solid := by
  have superblock : v.superblockErrors = [] := by
    simp only [superblockErrors, inv.magic, inv.version, ne_eq, not_true_eq_false, if_false,
      append_nil]
  have counts : v.freeBlockErrors = [] ↔ v.bitmap.freeCount = v.superblock.freeBlocks := by
    unfold freeBlockErrors
    split
    · simpa
    · simpa using not_not.mp ‹_›
  rw [FsckReport.isClean, fsck, List.isEmpty_iff, superblock, inv.tagErrors_eq_nil, nil_append,
    append_nil, append_eq_nil_iff, counts, inv.referenceErrors_eq_nil]
  exact ⟨fun ⟨counted, dense⟩ => ⟨counted, dense⟩, fun solid => ⟨solid.counted, solid.dense⟩⟩

/-! ## The calls that keep a volume solid -/

/-- A call that succeeds. -/
def okStep (computeTag : TagFunction) : Lts OnDiskVolume Call :=
  fun v c v' => c.run computeTag v = some (.ok (), v')

/-- The volume after a call that succeeds. -/
def okNext (computeTag : TagFunction) (v : OnDiskVolume) (c : Call) : Checked OnDiskVolume :=
  (c.run computeTag v).bind fun p => if p.1.isOk then some p.2 else none

theorem okStep_of_okNext {c : Call} (executed : okNext computeTag v c = some v') :
    okStep computeTag v c v' := by
  obtain ⟨⟨r, m⟩, run, succeeded⟩ := bind_eq_some_iff.mp executed
  cases r with
  | error err => cases succeeded
  | ok _ =>
    cases succeeded
    exact run

/-- A write starts at the latest in the block after the last one of its file. -/
def NoGap (v : OnDiskVolume) : Call → Prop
  | .writeFile path offset data =>
      data ≠ [] → ∀ n inode, v.lookup path = .ok (n, inode) →
        offset / blockSize ≤ inode.blocks.length
  | _ => True

/-- A write puts a hole into a file without one exactly if it leaves a gap. -/
theorem zero_mem_setPointers {blocks : List Nat} {newBlocks : List (Nat × Nat)} {e : Extent}
    (indices : newBlocks.map fst = e.blockIdxs) (order : e.first ≤ e.last)
    (new : ∀ nb ∈ newBlocks, nb.2 ≠ 0) (old : 0 ∉ blocks) :
    0 ∈ setPointers blocks newBlocks e ↔ blocks.length < e.first := by
  constructor
  · intro hole
    obtain ⟨k, here⟩ := getElem?_of_mem hole
    have below := (List.getElem?_eq_some_iff.mp here).1
    rw [length_setPointers] at below
    have outside : k ∉ newBlocks.map fst := by
      intro inside
      obtain ⟨nb, mem, rfl⟩ := mem_map.mp inside
      rw [getElem?_setPointers_of_mem indices mem, some_inj] at here
      exact new nb mem here
    have pointer : (setPointers blocks newBlocks e).getD k 0 = blocks.getD k 0 :=
      getD_setPointers_of_not_mem outside
    have beyond : blocks.length ≤ k := by
      by_contra within
      rw [getD_eq_getElem?_getD, here, getD_eq_getElem?_getD,
        getElem?_eq_getElem (Nat.not_le.mp within)] at pointer
      exact old (mem_of_getElem pointer.symm)
    rw [indices, Extent.mem_blockIdxs] at outside
    omega
  · intro gap
    have outside : blocks.length ∉ newBlocks.map fst := by
      rw [indices, Extent.mem_blockIdxs]
      omega
    have within : blocks.length < (setPointers blocks newBlocks e).length := by
      rw [length_setPointers]
      omega
    have pointer : (setPointers blocks newBlocks e).getD blocks.length 0 =
        blocks.getD blocks.length 0 :=
      getD_setPointers_of_not_mem outside
    rw [getD_eq_getElem?_getD, getElem?_eq_getElem within, getD_eq_getElem?_getD,
      getElem?_eq_none le_rfl] at pointer
    exact mem_of_getElem pointer

theorem Solid.created (solid : v.Solid) (fileType : FileType) (path : String) :
    (v.created fileType path).Solid := by
  refine ⟨solid.counted, fun n inode found => ?_⟩
  simp only [OnDiskVolume.created] at found
  rcases insert_eq_some.mp found with ⟨-, rfl⟩ | ⟨-, found⟩
  · exact not_mem_nil
  · exact solid.dense n inode found

theorem Solid.removed {m : OnDiskVolume} {path : String} {n freeBlocks : Nat} (solid : v.Solid)
    (inodes : m.inodes = v.inodes) (counted : m.bitmap.freeCount = freeBlocks) :
    (m.removed path n freeBlocks).Solid := by
  refine ⟨counted, fun k inode found => ?_⟩
  simp only [OnDiskVolume.removed, inodes, erase_eq_some] at found
  exact solid.dense k inode found.2

theorem Solid.written {path : String} {offset n : Nat} {data : List UInt8} {inode : Inode}
    {newBlocks : List (Nat × Nat)} {b' : BlockBitmap} (solid : v.Solid)
    (admitted : v.Admitted path offset data n inode)
    (allocates : Allocates (Extent.ofWrite offset data).blockIdxs v.bitmap b' newBlocks) :
    (written computeTag v n inode data (.ofWrite offset data) newBlocks b').Solid ↔
      v.NoGap (.writeFile path offset data) := by
  have found := (lookup_eq_ok.mp admitted.found).2
  have hole : 0 ∈ (updateInode inode newBlocks (.ofWrite offset data)).blocks ↔
      inode.blocks.length < offset / blockSize :=
    zero_mem_setPointers allocates.indices (Extent.first_le_last admitted.nonempty_extent)
      (fun nb mem => (allocates.fresh nb mem).1.ne') (solid.dense n inode found)
  have lookups : ∀ k : Nat,
      (OnDiskVolume.written computeTag v n inode data (.ofWrite offset data)
        newBlocks b').inodes[k]? =
        if k = n then some (updateInode inode newBlocks (.ofWrite offset data))
        else v.inodes[k]? := by
    intro k
    rw [inodes_written, getElem?_insert_eq]
  constructor
  · intro solid' _ n' inode' found'
    obtain ⟨rfl, rfl⟩ : n = n' ∧ inode = inode' := by
      simpa using admitted.found.symm.trans found'
    have dense := solid'.dense n _ ((lookups n).trans (if_pos rfl))
    rw [hole] at dense
    exact Nat.not_lt.mp dense
  · intro noGap
    refine ⟨rfl, fun k other there => ?_⟩
    rw [lookups] at there
    split at there
    · obtain rfl := some_inj.mp there
      rw [hole]
      exact Nat.not_lt.mpr (noGap admitted.nonempty n inode admitted.found)
    · exact solid.dense k other there

/-- A call that succeeds keeps a volume solid exactly if it leaves no gap. -/
theorem Solid.effect {c : Call} (solid : v.Solid) (effect : Effect computeTag v c (.ok ()) v') :
    v'.Solid ↔ v.NoGap c := by
  cases effect with
  | idle => exact ⟨fun _ nonempty => absurd rfl nonempty, fun _ => solid⟩
  | createdFile | createdDirectory => exact ⟨fun _ => trivial, fun _ => solid.created _ _⟩
  | written admitted allocates => exact solid.written admitted allocates
  | deletedFile =>
    exact ⟨fun _ => trivial, fun _ => solid.removed (releases_foldl _ _).inodes rfl⟩
  | deletedDirectory => exact ⟨fun _ => trivial, fun _ => solid.removed rfl solid.counted⟩

theorem solid_format {totalBlocks : Nat} (formatted : format totalBlocks = some v) : v.Solid := by
  obtain ⟨bitmap, -, formatted⟩ := bind_eq_some_iff.mp formatted
  cases formatted
  refine ⟨rfl, fun n inode found => ?_⟩
  rw [(insert_empty_eq_some.mp found).2]
  exact not_mem_nil

/-- After calls that all succeed and leave no gap the report of `fsck` is clean, and one more
call that succeeds keeps it clean exactly if it leaves no gap. -/
theorem fsck_clean_of_noGap (computeTag : TagFunction) (totalBlocks : Nat) (calls : List Call)
    (v₀ v : OnDiskVolume) (formatted : format totalBlocks = some v₀)
    (run : Run ((okStep computeTag).restrict NoGap) v₀ calls v) :
    (v.fsck computeTag).isClean = true ∧
      ∀ c v', okStep computeTag v c v' →
        ((v'.fsck computeTag).isClean = true ↔ v.NoGap c) := by
  have kept : v.Inv computeTag ∧ v.Solid := by
    refine run.invariant (fun v => v.Inv computeTag ∧ v.Solid) (fun m c m' kept taken => ?_)
      ⟨inv_format formatted, solid_format formatted⟩
    obtain ⟨inv, solid⟩ := kept
    obtain ⟨noGap, run⟩ := taken
    have effect := inv.toStored.effect_of_run run
    exact ⟨inv.effect effect, (solid.effect effect).mpr noGap⟩
  obtain ⟨inv, solid⟩ := kept
  refine ⟨inv.isClean_fsck.mpr solid, fun c v' run => ?_⟩
  have effect := inv.toStored.effect_of_run run
  rw [(inv.effect effect).isClean_fsck, solid.effect effect]

theorem fsck_clean_of_noGap_exists : ∃ v₀ v, format 8 = some v₀ ∧
    Run ((okStep zeroTag).restrict NoGap) v₀ [.createFile "/a", .writeFile "/a" 0 [1]] v ∧
    (v.fsck zeroTag).isClean = true := by
  have executed : (format 8).any fun v₀ => (okNext zeroTag v₀ (.createFile "/a")).any fun v₁ =>
      (okNext zeroTag v₁ (.writeFile "/a" 0 [1])).isSome := by
    decide +kernel
  simp only [Option.any_eq_true, Option.isSome_iff_exists] at executed
  obtain ⟨v₀, formatted, v₁, first, v, second⟩ := executed
  have run : Run ((okStep zeroTag).restrict NoGap) v₀ [.createFile "/a", .writeFile "/a" 0 [1]] v :=
    .cons ⟨trivial, okStep_of_okNext first⟩
      (.single ⟨fun _ _ _ _ => Nat.zero_le _, okStep_of_okNext second⟩)
  exact ⟨v₀, v, formatted, run, (fsck_clean_of_noGap zeroTag 8 _ v₀ v formatted run).1⟩

/-- One byte written to the second block of an empty file. -/
theorem fsck_reports_hole : ∃ v₀ v, format 8 = some v₀ ∧
    Run (okStep zeroTag) v₀ [.createFile "/a", .writeFile "/a" 4096 [1]] v ∧
    (v.fsck zeroTag).errors = [.unallocatedBlockReferenced 2 0] := by
  have executed : (format 8).any fun v₀ =>
      ([.createFile "/a", .writeFile "/a" 4096 [1]].foldlM (okNext zeroTag) v₀).any fun v =>
        (v.fsck zeroTag).errors = [.unallocatedBlockReferenced 2 0] := by
    decide +kernel
  simp only [Option.any_eq_true, decide_eq_true_eq] at executed
  obtain ⟨v₀, formatted, v, executed, errors⟩ := executed
  exact ⟨v₀, v, formatted, Run.of_foldlM (fun _ _ _ => okStep_of_okNext) executed, errors⟩

end NexaCore.Fs.OnDiskVolume
