import NexaCore.Fs.Checks
import NexaCore.Fs.Proofs.Read
import Mathlib

/-!
# Checks that cannot fail

The slices of the superblock, the integrity tags and the data blocks and the arithmetic of the
read loop are in range, so `mount` and `read_file` with every check are the functions of
`Fs.Image` and `Fs.Volume`: what is left to panic are the checks there.
-/

namespace NexaCore.Fs

open Misc Std List Option Nat

variable {raw : List UInt8} {start : Nat}

theorem sliceRange_of_le {stop : Nat} (order : start ≤ stop) (inside : stop ≤ raw.length) :
    sliceRange raw start stop = some ((raw.drop start).take (stop - start)) :=
  if_pos ⟨order, inside⟩

variable {block : List UInt8}

theorem sliceField_of_le {width : Nat} (inside : start + width ≤ block.length) :
    sliceField block start width = some (leField block start width) := by
  rw [sliceField, sliceRange_of_le (Nat.le_add_right _ _) inside, Nat.add_sub_cancel_left]
  rfl

variable {a b : Nat}

theorem subChecked_of_le (order : b ≤ a) : subChecked a b = some (a - b) := if_pos order

theorem parseSuperblockChecked_eq (block : List UInt8) :
    parseSuperblockChecked block = some (parseSuperblock block) := by
  rw [parseSuperblockChecked, parseSuperblock]
  by_cases short : block.length < 64
  · simp only [short, ↓reduceIte]
    rfl
  · have field : ∀ {start width}, start + width ≤ 64 →
        sliceField block start width = some (leField block start width) :=
      fun inside => sliceField_of_le (inside.trans (Nat.not_lt.mp short))
    have magic : sliceRange block 0 8 = some (block.take 8) :=
      sliceRange_of_le (Nat.zero_le _) (Nat.le_trans (by decide) (Nat.not_lt.mp short))
    simp only [short, ↓reduceIte, magic, Option.pure_def, bind_eq_bind, bind_some,
      field (by decide : 8 + 4 ≤ 64), field (by decide : 12 + 4 ≤ 64),
      field (by decide : 16 + 8 ≤ 64), field (by decide : 24 + 8 ≤ 64),
      field (by decide : 32 + 8 ≤ 64), field (by decide : 40 + 8 ≤ 64),
      field (by decide : 48 + 8 ≤ 64), field (by decide : 56 + 8 ≤ 64)]
    split
    · rfl
    · split
      · rfl
      · rfl

theorem deserializeTagsChecked_eq {entries : Nat}
    (inside : entries * integrityEntrySize ≤ block.length) (tags : ExtTreeMap Nat Tag) :
    deserializeTagsChecked entries block tags = some (deserializeTags entries block tags) := by
  induction entries generalizing block tags with
  | zero => rfl
  | succ entries ih =>
    have room : integrityEntrySize ≤ block.length := by
      rw [succ_mul] at inside
      omega
    have number : 0 + 8 ≤ block.length := Nat.le_trans (by decide) room
    rw [deserializeTagsChecked, deserializeTags, sliceField_of_le number]
    simp only [bind_eq_bind, bind_some, Option.pure_def]
    split
    · rfl
    · have left : entries * integrityEntrySize ≤ (block.drop integrityEntrySize).length := by
        rw [succ_mul] at inside
        rw [length_drop]
        omega
      have tag : (fun i : Fin tagLen =>
          ((block.drop 8).take (integrityEntrySize - 8)).getD i.val 0) =
          fun i : Fin tagLen => block.getD (8 + i.val) 0 := by
        funext i
        have within : i.val < integrityEntrySize - 8 := i.isLt
        rw [getD_eq_getElem?_getD, getD_eq_getElem?_getD, getElem?_take_of_lt within, getElem?_drop]
      rw [sliceRange_of_le (by decide) room, bind_some, tag, ih left]

theorem deserializeBlocksChecked_eq {dataEnd : Nat} (inside : dataEnd ≤ raw.length)
    (blocks : List Nat) (bytePos : Nat) (result : ExtTreeMap Nat (List UInt8)) :
    deserializeBlocksChecked raw dataEnd blocks bytePos result =
      some (deserializeBlocks raw dataEnd blocks bytePos result) := by
  induction blocks generalizing bytePos result with
  | nil => rfl
  | cons blockNum rest ih =>
    rw [deserializeBlocksChecked, deserializeBlocks]
    split
    · rename_i room
      rw [sliceRange_of_le (Nat.le_add_right _ _) (room.trans inside), Nat.add_sub_cancel_left]
      exact ih _ _
    · rfl

theorem mulU64_eq_some {c : Nat} (product : mulU64 a b = some c) : c = a * b ∧ a * b < 2 ^ 64 := by
  unfold mulU64 at product
  split at product
  · exact ⟨(Option.some.inj product).symm, ‹_›⟩
  · cases product

variable {total : Nat}

theorem restoreTagsChecked_eq (fits : total * blockSize < 2 ^ 64) :
    restoreTagsChecked raw total =
      some (if total ≥ 1 ∧ (total - 1) * blockSize + blockSize ≤ raw.length then
        deserializeIntegrityTags ((raw.drop ((total - 1) * blockSize)).take blockSize) else ∅) := by
  rw [restoreTagsChecked]
  by_cases some : total ≥ 1
  · have last : (total - 1) * blockSize + blockSize = total * blockSize := by
      rw [← Nat.add_one_mul, Nat.sub_add_cancel some]
    have product : mulU64 (total - 1) blockSize = .some ((total - 1) * blockSize) :=
      mulU64_of_lt (by omega)
    have sum : addU64 ((total - 1) * blockSize) blockSize = .some (total * blockSize) := by
      rw [addU64_of_lt (by omega), last]
    simp only [some, ↓reduceIte, subChecked_of_le some, product, sum, bind_eq_bind,
      bind_some, true_and, last]
    split
    · rename_i inside
      have size : total * blockSize - (total - 1) * blockSize = blockSize := by omega
      rw [sliceRange_of_le (by omega) inside, bind_some, size,
        deserializeTagsChecked_eq (div_mul_le_self _ _)]
      rfl
    · rfl
  · simp only [some, ↓reduceIte, false_and]

theorem restoreBlocksChecked_eq (fits : total * blockSize < 2 ^ 64)
    (inside : total * blockSize ≤ raw.length) (bitmap : BlockBitmap) :
    restoreBlocksChecked raw bitmap total = some (if total > 4 then
        deserializeDataBlocks raw (3 * blockSize) ((total - 1) * blockSize) bitmap total
      else ∅) := by
  rw [restoreBlocksChecked]
  split
  · rename_i large
    have below : (total - 1) * blockSize ≤ total * blockSize := mul_le_mul_right _ (sub_le _ _)
    have product : mulU64 (total - 1) blockSize = some ((total - 1) * blockSize) :=
      mulU64_of_lt (below.trans_lt fits)
    rw [subChecked_of_le (by omega)]
    simp only [bind_eq_bind, bind_some, product]
    exact deserializeBlocksChecked_eq (below.trans inside) _ _ _
  · rfl

namespace OnDiskVolume

theorem mountChecked_eq (raw : List UInt8) : mountChecked raw = mount raw := by
  rw [mountChecked, mount]
  by_cases short : raw.length < blockSize
  · simp only [short, ↓reduceIte]
  · have first : sliceRange raw 0 blockSize = some (raw.take blockSize) :=
      sliceRange_of_le (Nat.zero_le _) (Nat.not_lt.mp short)
    simp only [short, ↓reduceIte, first, bind_eq_bind, bind_some, parseSuperblockChecked_eq]
    cases parseSuperblock (raw.take blockSize) with
    | error err => rfl
    | ok sb =>
      simp only
      cases product : mulU64 sb.totalBlocks blockSize with
      | none => rfl
      | some bytes =>
        obtain ⟨rfl, fits⟩ := mulU64_eq_some product
        simp only [bind_some]
        by_cases small : raw.length < sb.totalBlocks * blockSize
        · simp only [small, ↓reduceIte]
        · have inside := Nat.not_lt.mp small
          simp only [small, ↓reduceIte]
          cases sliceRange raw blockSize (min (blockSize + blockSize) raw.length) with
          | none => rfl
          | some bytes =>
            simp only [bind_some]
            cases BlockBitmap.fromBytes bytes sb.totalBlocks with
            | none => rfl
            | some decoded =>
              cases decoded with
              | none => rfl
              | some bitmap =>
                simp only [restoreTagsChecked_eq fits, restoreBlocksChecked_eq fits inside,
                  bind_some]

/-! ## Reading -/

variable {room : Nat}

theorem copyInto_zeros (done bytes : List UInt8) (fits : bytes.length ≤ room) :
    copyInto (done ++ replicate room 0) done.length bytes =
      some (done ++ bytes ++ replicate (room - bytes.length) 0) := by
  have inside : done.length + bytes.length ≤ (done ++ replicate room (0 : UInt8)).length := by
    rw [length_append, length_replicate]
    omega
  rw [copyInto, if_pos inside, take_left, drop_append, drop_eq_nil_of_le (by omega),
    drop_replicate, Nat.add_sub_cancel_left, nil_append]

theorem zeros_split {width : Nat} (fits : width ≤ room) :
    replicate room (0 : UInt8) = replicate width 0 ++ replicate (room - width) 0 := by
  rw [replicate_append_replicate, Nat.add_sub_cancel' fits]

/-- The bytes `start` to `stop` of a block, with zeros for what it does not have. -/
def zeroPadded (block : List UInt8) (start stop : Nat) : List UInt8 :=
  (block.drop start).take (min stop block.length - start) ++
    List.replicate (stop - max start (min stop block.length)) 0

section

variable {computeTag : TagFunction} {v : OnDiskVolume} {inode : Inode} {e : Extent} {idx : Nat}

variable {blockNum : Nat}

theorem readBlock_stored {block : List UInt8} (used : blockNum ≠ 0)
    (stored : v.dataBlocks[blockNum]? = some block) (start stop : Nat) :
    v.readBlock computeTag blockNum start stop =
      ((v.integrityTags[blockNum]?).elim (.ok ()) (verifyTag computeTag blockNum block)).map
        fun _ => zeroPadded block start stop := by
  rw [readBlock, if_neg used, stored]
  cases v.integrityTags[blockNum]? with
  | none => rfl
  | some tag =>
    simp only [elim_some]
    cases verifyTag computeTag blockNum block tag <;> rfl

variable {start stop : Nat}

theorem length_readBlock {bytes : List UInt8} (order : start ≤ stop)
    (read : v.readBlock computeTag blockNum start stop = .ok bytes) :
    bytes.length = stop - start := by
  by_cases hole : blockNum = 0
  · rw [readBlock, if_pos hole] at read
    cases read
    exact length_replicate
  · cases stored : v.dataBlocks[blockNum]? with
    | none =>
      rw [readBlock, if_neg hole, stored] at read
      cases read
      exact length_replicate
    | some block =>
      rw [readBlock_stored hole stored] at read
      generalize (v.integrityTags[blockNum]?).elim (.ok ()) (verifyTag computeTag blockNum block) =
        check at read
      cases check with
      | error err => cases read
      | ok done =>
        cases read
        rw [zeroPadded, length_append, length_take, length_drop, length_replicate]
        omega

variable {room : Nat}

/-- The copy of one turn of the loop leaves zeros where the block ends early. -/
theorem copy_turn (block done : List UInt8) (order : start ≤ stop) (fits : stop - start ≤ room) :
    (if start < min stop block.length then do
        let bytes ← sliceRange block start (min stop block.length)
        copyInto (done ++ replicate room 0) done.length bytes
      else some (done ++ replicate room 0)) =
      some (done ++ zeroPadded block start stop ++ replicate (room - (stop - start)) 0) := by
  split
  · rename_i long
    have size : ((block.drop start).take (min stop block.length - start)).length =
        min stop block.length - start := by
      rw [length_take, length_drop]
      omega
    have rest : room - (min stop block.length - start) =
        stop - max start (min stop block.length) + (room - (stop - start)) := by
      omega
    rw [sliceRange_of_le long.le (min_le_right _ _)]
    simp only [bind_eq_bind, bind_some]
    rw [copyInto_zeros _ _ (by omega), size, rest, zeroPadded, ← replicate_append_replicate]
    simp only [append_assoc]
  · rename_i short
    have none : min stop block.length - start = 0 := by omega
    have all : max start (min stop block.length) = start := by omega
    rw [zeroPadded, none, all, take_zero, nil_append, zeros_split fits, append_assoc]

theorem readTurn_eq (order : e.blockStart idx ≤ e.blockEnd idx) (done : List UInt8)
    (fits : e.blockEnd idx - e.blockStart idx ≤ room) :
    v.readTurn computeTag inode e (done ++ replicate room 0) done.length idx =
      some ((v.readBlock computeTag (inode.blocks.getD idx 0) (e.blockStart idx)
        (e.blockEnd idx)).map
        fun bytes => (done ++ bytes ++
          replicate (room - (e.blockEnd idx - e.blockStart idx)) 0,
          done.length + (e.blockEnd idx - e.blockStart idx))) := by
  have left := zeros_split fits
  rw [readTurn, subChecked_of_le order]
  simp only [bind_eq_bind, bind_some, Option.pure_def]
  by_cases hole : inode.blocks.getD idx 0 = 0
  · rw [readBlock, if_pos hole, if_pos hole, left, ← append_assoc]
    rfl
  · rw [if_neg hole]
    cases stored : v.dataBlocks[inode.blocks.getD idx 0]? with
    | none =>
      rw [readBlock, if_neg hole, stored, left, ← append_assoc]
      rfl
    | some block =>
      rw [readBlock_stored hole stored]
      simp only
      cases (v.integrityTags[inode.blocks.getD idx 0]?).elim (.ok ())
          (verifyTag computeTag (inode.blocks.getD idx 0) block) with
      | error err => rfl
      | ok verified =>
        have copied := copy_turn block done order fits
        simp only [bind_eq_bind] at copied ⊢
        split at copied
        · rename_i long
          rw [if_pos long, ← bind_assoc, copied]
          rfl
        · rename_i short
          rw [if_neg short, Option.some.inj copied]
          rfl

theorem readLoop_eq (nonempty : e.offset < e.endOffset) {count : Nat} (first : e.first ≤ idx)
    (last : idx + count = e.last + 1) (done : List UInt8) :
    v.readLoop computeTag inode e (range' idx count)
        (done ++ replicate (e.endOffset - e.cut idx) 0) done.length =
      some ((v.readBlocks computeTag inode e (range' idx count)).map (done ++ ·)) := by
  induction count generalizing idx done with
  | zero =>
    have stop : idx = e.last + 1 := last
    rw [stop, Extent.cut_last nonempty, Nat.sub_self]
    rfl
  | succ count ih =>
    have mem : idx ∈ e.blockIdxs := Extent.mem_blockIdxs.mpr ⟨first, by omega⟩
    obtain ⟨start, stop, -, inOrder, -⟩ := e.blockStart_eq nonempty mem
    have order := inOrder.le
    have bound := e.cut_le (idx + 1)
    have room : e.endOffset - e.cut idx - (e.blockEnd idx - e.blockStart idx) =
        e.endOffset - e.cut (idx + 1) := by
      omega
    rw [range'_succ, readLoop, readTurn_eq order done (by omega), readBlocks]
    cases read : v.readBlock computeTag (inode.blocks.getD idx 0) (e.blockStart idx)
      (e.blockEnd idx) with
    | error err => rfl
    | ok bytes =>
      have size := length_readBlock order read
      have rest := ih (first.trans (le_succ idx)) (by omega) (done ++ bytes)
      rw [length_append, size] at rest
      simp only [Except.map, bind_eq_bind, bind_some, room]
      rw [rest]
      cases v.readBlocks computeTag inode e (range' (idx + 1) count) with
      | error err => rfl
      | ok others =>
        simp only [Except.map, bind, Except.bind, pure, Except.pure, append_assoc]

theorem readLoop_blockIdxs (nonempty : e.offset < e.endOffset) :
    v.readLoop computeTag inode e e.blockIdxs (replicate (e.endOffset - e.offset) 0) 0 =
      some (v.readBlocks computeTag inode e e.blockIdxs) := by
  have count : e.first + (e.last + 1 - e.first) = e.last + 1 :=
    Nat.add_sub_cancel' ((Extent.first_le_last nonempty).trans (Nat.le_succ _))
  have loop : v.readLoop computeTag inode e e.blockIdxs
      ([] ++ replicate (e.endOffset - e.cut e.first) 0) 0 =
      some ((v.readBlocks computeTag inode e e.blockIdxs).map ([] ++ ·)) :=
    readLoop_eq nonempty le_rfl count []
  rw [Extent.cut_first nonempty, nil_append] at loop
  rw [loop]
  cases v.readBlocks computeTag inode e e.blockIdxs <;> rfl

theorem readFileChecked_eq (path : String) (offset : Nat) (count : UInt32) :
    v.readFileChecked computeTag path offset count = v.readFile computeTag path offset count := by
  rw [readFileChecked, readFile]
  cases v.lookup path with
  | error err => rfl
  | ok found =>
    obtain ⟨n, inode⟩ := found
    simp only
    split
    · rfl
    · split
      · rfl
      · rename_i inside
        cases sum : addU64 offset count.toNat with
        | none => rfl
        | some stop =>
          have total := addU64_eq_some sum
          have positive : count.toNat ≠ 0 := fun zero => inside (.inr (UInt32.toNat_inj.mp zero))
          have nonempty : offset < min stop inode.size := by omega
          simp only [bind_eq_bind, bind_some, subChecked_of_le nonempty.le,
            subChecked_of_le (one_le_of_lt nonempty)]
          exact readLoop_blockIdxs nonempty

end

end OnDiskVolume

end NexaCore.Fs
