import NexaCore.Fs.Proofs.Invariant

/-!
# The volume after a write

The bytes of the file that was written are the old ones with the data put over them, and
the volume keeps its invariant. The blocks of the other files are not touched.
-/

namespace NexaCore.Fs.OnDiskVolume

open Misc List Extent Option Prod Nat

variable {computeTag : TagFunction} {v : OnDiskVolume} {path : String} {offset n b : Nat}
  {inode : Inode} {data : List UInt8} {newBlocks : List (Nat × Nat)} {b' : BlockBitmap} {e : Extent}

/-- A pointer after a write is new or was there before, outside the extent. -/
theorem pointer_cases {blocks : List Nat} {k : Nat}
    (indices : newBlocks.map fst = e.blockIdxs)
    (here : (setPointers blocks newBlocks e)[k]? = some b) (block : b ≠ 0) :
    (k, b) ∈ newBlocks ∨ (k ∉ newBlocks.map fst ∧ blocks[k]? = some b) := by
  by_cases inside : k ∈ newBlocks.map fst
  · obtain ⟨nb, mem, rfl⟩ := mem_map.mp inside
    rw [getElem?_setPointers_of_mem indices mem, some_inj] at here
    exact .inl (here ▸ mem)
  · have pointer : (setPointers blocks newBlocks e).getD k 0 = blocks.getD k 0 :=
      getD_setPointers_of_not_mem inside
    rw [getD_eq_getElem?_getD, here, getD_some] at pointer
    exact .inr ⟨inside, getElem?_of_getD pointer.symm block⟩

theorem Inv.getD_seedBlock (inv : v.Inv computeTag) (blocks : List Nat) (idx r : Nat) :
    (v.seedBlock blocks idx).getD r 0 = (v.dataBlocks[blocks.getD idx 0]?.getD []).getD r 0 := by
  have padded : ∀ (bytes : List UInt8) (count : Nat),
      (bytes ++ replicate count 0).getD r 0 = bytes.getD r 0 := by
    intro bytes count
    rw [getD_eq_getElem?_getD, getD_eq_getElem?_getD, getElem?_append]
    split
    · rfl
    · rw [getElem?_replicate, getElem?_eq_none (by omega)]
      split <;> rfl
  have zeros : (replicate blockSize (0 : UInt8)).getD r 0 = ([] : List UInt8).getD r 0 :=
    padded [] blockSize
  rw [getD_eq_getElem?_getD (l := blocks)]
  simp only [seedBlock, padded]
  cases blocks[idx]? with
  | none => rw [getD_none, inv.not_stored_zero, getD_none, zeros]
  | some b =>
    rw [getD_some]
    simp only
    by_cases hole : b = 0
    · rw [if_neg (not_not.mpr hole), hole, inv.not_stored_zero, getD_none, zeros]
    · rw [if_pos hole]
      cases v.dataBlocks[b]? with
      | none => exact zeros
      | some block => rfl

theorem Inv.byteAt_filled (inv : v.Inv computeTag) (found : v.inodes[n]? = some inode)
    (allocates : Allocates e.blockIdxs v.bitmap b' newBlocks) (k : Nat) :
    (OnDiskVolume.filled computeTag (v.seedBlock inode.blocks) data e newBlocks
      { v with bitmap := b' }).byteAt (setPointers inode.blocks newBlocks e) k =
      if e.offset ≤ k ∧ k < e.endOffset then data.getD (k - e.offset) 0
      else v.byteAt inode.blocks k := by
  have place : k % blockSize < blockSize := mod_lt _ (by decide)
  have position : k / blockSize * blockSize + k % blockSize = k := div_add_mod' k _
  unfold byteAt
  by_cases inside : k / blockSize ∈ newBlocks.map fst
  · obtain ⟨nb, mem, index⟩ := mem_map.mp inside
    have pointer : (setPointers inode.blocks newBlocks e)[nb.1]? = some nb.2 :=
      getElem?_setPointers_of_mem allocates.indices mem
    rw [← index, getD_eq_getElem?_getD (l := setPointers _ _ _), pointer, getD_some,
      dataBlocks_filled_of_mem allocates.distinct mem, getD_some,
      getD_eq_getElem?_getD, getElem?_mergedBlock _ _ _ _ place, getD_some, index,
      position, inv.getD_seedBlock]
  · have outside : ¬(e.offset ≤ k ∧ k < e.endOffset) := by
      rintro ⟨lower, upper⟩
      exact inside (allocates.indices ▸ mem_blockIdxs_of_mem lower upper)
    rw [if_neg outside, getD_setPointers_of_not_mem inside]
    have kept : (OnDiskVolume.filled computeTag (v.seedBlock inode.blocks) data e newBlocks
        { v with bitmap := b' }).dataBlocks[inode.blocks.getD (k / blockSize) 0]? =
        v.dataBlocks[inode.blocks.getD (k / blockSize) 0]? := by
      apply dataBlocks_filled_of_not_mem
      intro new
      obtain ⟨nb, mem, same⟩ := mem_map.mp new
      obtain ⟨positive, -, -⟩ := allocates.fresh nb mem
      have block : inode.blocks.getD (k / blockSize) 0 ≠ 0 := by omega
      have old := mem_of_getElem? (getElem?_of_getD rfl block)
      exact inv.not_mem_newBlocks allocates found old block new
    rw [kept]

theorem mem_of_mem_replaced {blocks : List Nat} (mem : b ∈ replaced blocks newBlocks)
    (block : b ≠ 0) : ∃ nb ∈ newBlocks, blocks[nb.1]? = some b := by
  obtain ⟨nb, memNew, pointer⟩ := mem_map.mp mem
  exact ⟨nb, memNew, getElem?_of_getD pointer block⟩

/-- A block to which an inode points from outside the extent is not replaced. -/
theorem Inv.not_mem_replaced {n' k : Nat} {other : Inode} (inv : v.Inv computeTag)
    (found : v.inodes[n]? = some inode) (found' : v.inodes[n']? = some other)
    (here : other.blocks[k]? = some b) (block : b ≠ 0)
    (outside : n' = n → k ∉ newBlocks.map fst) : b ∉ replaced inode.blocks newBlocks := by
  intro mem
  obtain ⟨nb, memNew, old⟩ := mem_of_mem_replaced mem block
  obtain ⟨sameInode, sameIndex⟩ := inv.owned n' n other inode k nb.1 b found' found here old block
  exact outside sameInode (sameIndex ▸ mem_map.mpr ⟨nb, memNew, rfl⟩)

theorem dataBlocks_updated_of_not_mem (absent : b ∉ newBlocks.map snd) :
    (updated computeTag v n inode data e newBlocks b').dataBlocks[b]? = v.dataBlocks[b]? :=
  getElem?_insertAll_of_not_mem fun nb mem same => absent (mem_map.mpr ⟨nb, mem, same⟩)

theorem dataBlocks_written_of_not_mem (kept : b ∉ replaced inode.blocks newBlocks) :
    (written computeTag v n inode data e newBlocks b').dataBlocks[b]? =
      (updated computeTag v n inode data e newBlocks b').dataBlocks[b]? :=
  ((releases_foldl _ _).dataBlocks b).trans (if_neg fun h => kept h.2)

section Update

variable (inv : v.Inv computeTag) (admitted : v.Admitted path offset data n inode)
  (allocates : Allocates (ofWrite offset data).blockIdxs v.bitmap b' newBlocks)
include inv admitted allocates

theorem Inv.shaped_updateInode :
    (OnDiskVolume.filled computeTag (v.seedBlock inode.blocks) data (.ofWrite offset data) newBlocks
      { v with bitmap := b' }).Shaped n (updateInode inode newBlocks (.ofWrite offset data)) := by
  have found := (lookup_eq_ok.mp admitted.found).2
  have shaped := inv.shaped n inode found
  have bound := admitted.last_lt
  have length : (setPointers inode.blocks newBlocks (.ofWrite offset data)).length =
      max inode.blocks.length ((ofWrite offset data).last + 1) := length_setPointers
  refine ⟨shaped.number, length.trans_le bound, ?_, ?_, fun k beyond => ?_, fun directory => ?_⟩
  · simp only [updateInode]
    rw [length]
    split
    · exact (endOffset_le _).trans (mul_le_mul_right _ (le_max_right _ _))
    · exact shaped.size.trans (mul_le_mul_right _ (le_max_left _ _))
  · simp only [updateInode]
    apply mod_eq_of_lt
    have count := countP_le_length (p := fun b => decide (b ≠ 0))
      (l := setPointers inode.blocks newBlocks (.ofWrite offset data))
    omega
  · have size : (ofWrite offset data).endOffset ≤ k ∧ inode.size ≤ k := by
      simp only [updateInode] at beyond
      split at beyond <;> omega
    have outside : ¬((ofWrite offset data).offset ≤ k ∧
        k < (ofWrite offset data).endOffset) := by omega
    exact (inv.byteAt_filled found allocates k).trans (by
      rw [if_neg outside]
      exact shaped.zero k size.2)
  · exact absurd (admitted.regular.symm.trans directory) (by decide)

theorem Inv.updated :
    (updated computeTag v n inode data (.ofWrite offset data) newBlocks b').Inv computeTag := by
  have found := (lookup_eq_ok.mp admitted.found).2
  have filled : (OnDiskVolume.filled computeTag (v.seedBlock inode.blocks) data
      (.ofWrite offset data) newBlocks { v with bitmap := b' }).Inv computeTag :=
        inv.filled allocates
  have indices := allocates.indices
  apply filled.repointed
  · intro b mem block
    obtain ⟨k, here⟩ := getElem?_of_mem mem
    rcases pointer_cases indices here block with new | ⟨-, old⟩
    · exact ⟨_, dataBlocks_filled_of_mem allocates.distinct new⟩
    · exact filled.referenced n inode found b (mem_of_getElem? old) block
  · intro k k' b here here' block
    rcases pointer_cases indices here block with new | ⟨-, old⟩
    · rcases pointer_cases indices here' block with new' | ⟨-, old'⟩
      · have same := inj_on_of_nodup_map allocates.distinct new new' rfl
        exact congrArg fst same
      · exact absurd (mem_map.mpr ⟨_, new, rfl⟩)
          (inv.not_mem_newBlocks allocates found (mem_of_getElem? old') block)
    · rcases pointer_cases indices here' block with new' | ⟨-, old'⟩
      · exact absurd (mem_map.mpr ⟨_, new', rfl⟩)
          (inv.not_mem_newBlocks allocates found (mem_of_getElem? old) block)
      · exact (inv.owned n n inode inode k k' b found found old old' block).2
  · intro n' other apart found' b mem block mem'
    obtain ⟨k, here⟩ := getElem?_of_mem mem
    obtain ⟨k', here'⟩ := getElem?_of_mem mem'
    rcases pointer_cases indices here block with new | ⟨-, old⟩
    · exact absurd (mem_map.mpr ⟨_, new, rfl⟩) (inv.not_mem_newBlocks allocates found' mem' block)
    · exact apart (inv.owned n' n other inode k' k b found' found here' old block).1
  · exact inv.shaped_updateInode admitted allocates

theorem Inv.replaced_unused (n' : Nat) (other : Inode)
    (found' : (OnDiskVolume.updated computeTag v n inode data (.ofWrite offset data) newBlocks
      b').inodes[n']? = some other) (b : Nat) (mem : b ∈ other.blocks) (block : b ≠ 0) :
    b ∉ replaced inode.blocks newBlocks := by
  have found := (lookup_eq_ok.mp admitted.found).2
  obtain ⟨k, here⟩ := getElem?_of_mem mem
  simp only [OnDiskVolume.updated] at found'
  rcases insert_eq_some.mp found' with ⟨-, rfl⟩ | ⟨apart, found'⟩
  · rcases pointer_cases allocates.indices here block with new | ⟨outside, old⟩
    · intro mem'
      obtain ⟨nb, -, old⟩ := mem_of_mem_replaced mem' block
      exact inv.not_mem_newBlocks allocates found (mem_of_getElem? old) block
        (mem_map.mpr ⟨_, new, rfl⟩)
    · exact inv.not_mem_replaced found found old block fun _ => outside
  · exact inv.not_mem_replaced found found' here block fun same => absurd same apart

theorem Inv.written :
    (written computeTag v n inode data (.ofWrite offset data) newBlocks b').Inv computeTag := by
  have found := (lookup_eq_ok.mp admitted.found).2
  have updated := inv.updated admitted allocates
  have released := updated.released
    (releases_foldl (OnDiskVolume.updated computeTag v n inode data (.ofWrite offset data) newBlocks
      b') (replaced inode.blocks newBlocks))
    (inv.replaced_unused admitted allocates) (by
      intro b mem block
      obtain ⟨nb, -, old⟩ := mem_of_mem_replaced mem block
      have absent := inv.not_mem_newBlocks allocates found (mem_of_getElem? old) block
      obtain ⟨d, stored⟩ := inv.referenced n inode found b (mem_of_getElem? old) block
      exact ⟨d, (dataBlocks_updated_of_not_mem absent).trans stored⟩)
  exact released.of_inodes rfl rfl rfl rfl rfl rfl fun _ _ => .inl

end Update

/-! ## What the written volume holds -/

section Contents

variable (inv : v.Inv computeTag) (admitted : v.Admitted path offset data n inode)
  (allocates : Allocates (ofWrite offset data).blockIdxs v.bitmap b' newBlocks)

theorem inodes_written : (written computeTag v n inode data e newBlocks b').inodes =
    v.inodes.insert n (updateInode inode newBlocks e) :=
  (releases_foldl _ _).inodes

theorem pathMap_written : (written computeTag v n inode data e newBlocks b').pathMap = v.pathMap :=
  (releases_foldl _ _).pathMap

include inv admitted allocates

theorem Inv.byteAt_written (k : Nat) :
    (OnDiskVolume.written computeTag v n inode data (.ofWrite offset data) newBlocks b').byteAt
      (updateInode inode newBlocks (.ofWrite offset data)).blocks k =
      if offset ≤ k ∧ k < offset + data.length then data.getD (k - offset) 0
      else v.byteAt inode.blocks k := by
  have found := (lookup_eq_ok.mp admitted.found).2
  have updated := inv.updated admitted allocates
  have written := inv.written admitted allocates
  have kept : ∀ b ∈ (updateInode inode newBlocks (.ofWrite offset data)).blocks, b ≠ 0 →
      b ∉ replaced inode.blocks newBlocks := by
    apply inv.replaced_unused admitted allocates n
    simp only [OnDiskVolume.updated]
    rw [getElem?_insert_eq, if_pos rfl]
  rw [byteAt_congr updated.not_stored_zero written.not_stored_zero fun b mem block =>
    dataBlocks_written_of_not_mem (kept b mem block)]
  refine (inv.byteAt_filled found allocates k).trans ?_
  rw [admitted.covered]
  rfl

theorem Inv.byteAt_written_of_ne {n' : Nat} {other : Inode} (found' : v.inodes[n']? = some other)
    (apart : n' ≠ n) (k : Nat) :
    (OnDiskVolume.written computeTag v n inode data (.ofWrite offset data) newBlocks b').byteAt
      other.blocks k = v.byteAt other.blocks k := by
  have written := inv.written admitted allocates
  apply byteAt_congr inv.not_stored_zero written.not_stored_zero
  intro b mem block
  have kept : b ∉ replaced inode.blocks newBlocks := by
    apply inv.replaced_unused admitted allocates n' other _ b mem block
    simp only [OnDiskVolume.updated]
    rw [getElem?_insert_eq, if_neg apart, found']
  rw [dataBlocks_written_of_not_mem kept,
    dataBlocks_updated_of_not_mem (inv.not_mem_newBlocks allocates found' mem block)]

end Contents

end NexaCore.Fs.OnDiskVolume
