import NexaCore.Fs.Proofs.Invariant

/-!
# The effect of a read

A file is a byte string of the length in its inode, and `read_file` returns the part of it
that it is asked for.
-/

namespace NexaCore.Fs.OnDiskVolume

open Misc List Option Extent

variable {computeTag : TagFunction} {v : OnDiskVolume} {path : String} {n : Nat} {inode : Inode}

def contents (v : OnDiskVolume) (inode : Inode) : List UInt8 :=
  (List.range inode.size).map (v.byteAt inode.blocks)

def contentsOf (v : OnDiskVolume) (path : String) : Option (List UInt8) :=
  match v.lookup path with
  | .error _ => none
  | .ok (_, inode) => if inode.fileType = .regularFile then some (v.contents inode) else none

@[simp] theorem length_contents (v : OnDiskVolume) (inode : Inode) :
    (v.contents inode).length = inode.size := by
  simp [contents]

theorem getElem?_contents (v : OnDiskVolume) (inode : Inode) {k : Nat} (below : k < inode.size) :
    (v.contents inode)[k]? = some (v.byteAt inode.blocks k) := by
  simp [contents, below]

/-- The bytes `start` to `stop` of a file with the given pointers. -/
def bytesBetween (v : OnDiskVolume) (blocks : List Nat) (start stop : Nat) : List UInt8 :=
  (List.range' start (stop - start)).map (v.byteAt blocks)

theorem bytesBetween_append (v : OnDiskVolume) (blocks : List Nat) {start middle stop : Nat}
    (lower : start ≤ middle) (upper : middle ≤ stop) :
    v.bytesBetween blocks start middle ++ v.bytesBetween blocks middle stop =
      v.bytesBetween blocks start stop := by
  have parts : stop - start = middle - start + (stop - middle) := by omega
  have joint : start + (middle - start) = middle := by omega
  rw [bytesBetween, bytesBetween, bytesBetween, ← map_append, parts, ← range'_append_1, joint]

theorem drop_take_contents (v : OnDiskVolume) (inode : Inode) (start count : Nat) :
    ((v.contents inode).drop start).take count =
      v.bytesBetween inode.blocks start (min (start + count) inode.size) := by
  have range : ((range inode.size).drop start).take count =
      range' start (min (start + count) inode.size - start) := by
    rw [take_drop, take_range, range_eq_range', drop_range', mul_one, zero_add]
  rw [contents, ← map_drop, ← map_take, range, bytesBetween]

variable (inv : v.Inv computeTag)
include inv

theorem Inv.readBlock_eq (blocks : List Nat) {idx start stop : Nat} (order : start ≤ stop)
    (inBlock : stop ≤ blockSize) :
    v.readBlock computeTag (blocks.getD idx 0) start stop =
      .ok (v.bytesBetween blocks (idx * blockSize + start) (idx * blockSize + stop)) := by
  have size : idx * blockSize + stop - (idx * blockSize + start) = stop - start := by omega
  -- The bytes of the part are those of the stored block, if there is one.
  have bytes : v.bytesBetween blocks (idx * blockSize + start) (idx * blockSize + stop) =
      (List.range (stop - start)).map fun k =>
        (v.dataBlocks[blocks.getD idx 0]?.getD []).getD (start + k) 0 := by
    rw [bytesBetween, size, range'_eq_map_range, List.map_map]
    refine map_congr_left fun k below => ?_
    rw [mem_range] at below
    have index : (idx * blockSize + start + k) / blockSize = idx := by
      simp only [blockSize] at *
      omega
    have position : (idx * blockSize + start + k) % blockSize = start + k := by
      simp only [blockSize] at *
      omega
    rw [Function.comp_apply, byteAt, index, position]
  have zeros (absent : v.dataBlocks[blocks.getD idx 0]? = none) : List.replicate (stop - start) 0 =
        v.bytesBetween blocks (idx * blockSize + start) (idx * blockSize + stop) := by
    rw [bytes, absent]
    simp
  unfold readBlock
  by_cases hole : blocks.getD idx 0 = 0
  · rw [if_pos hole, zeros (by rw [hole, inv.not_stored_zero])]
  · rw [if_neg hole]
    cases found : v.dataBlocks[blocks.getD idx 0]? with
    | none => simp only [zeros found]
    | some block =>
      have tag := inv.tagged (blocks.getD idx 0)
      have whole := (inv.stored _ block found).2.2.2
      rw [found, map_some] at tag
      have within : min stop block.length = stop := by omega
      have copied : (block.drop start).take (stop - start) =
          v.bytesBetween blocks (idx * blockSize + start) (idx * blockSize + stop) := by
        rw [bytes, found, getD_some]
        apply ext_getElem (by simp; omega)
        intro k inPart inRange
        simp only [length_take, length_drop] at inPart
        simp [show start + k < block.length by omega]
      simp only [tag, verifyTag_computeTag, within, Nat.max_eq_right order, Nat.sub_self,
        replicate_zero, append_nil, copied]
      rfl

/-- The read loop returns the bytes of the blocks from `idx` on. -/
theorem Inv.readBlocks_eq {e : Extent} (nonempty : e.offset < e.endOffset) {idx count : Nat}
    (first : e.first ≤ idx) (last : idx + count = e.last + 1) :
    v.readBlocks computeTag inode e (range' idx count) =
      .ok (v.bytesBetween inode.blocks (e.cut idx) e.endOffset) := by
  induction count generalizing idx with
  | zero =>
    have stop : idx = e.last + 1 := last
    rw [stop, e.cut_last nonempty, bytesBetween, Nat.sub_self]
    rfl
  | succ count ih =>
    have mem : idx ∈ e.blockIdxs := mem_blockIdxs.mpr (by omega)
    obtain ⟨start, stop, -, order, inBlock⟩ := e.blockStart_eq nonempty mem
    have joint : e.cut idx ≤ e.cut (idx + 1) := by omega
    rw [range'_succ, readBlocks, inv.readBlock_eq inode.blocks order.le inBlock,
      ih (by omega) (by omega), start, stop,
      ← bytesBetween_append v inode.blocks joint (e.cut_le (idx + 1))]
    rfl

/-- `read_file` returns the bytes of the file between `offset` and `offset + count`. -/
theorem Inv.readFile_eq (found : v.lookup path = .ok (n, inode))
    (regular : inode.fileType = .regularFile) (offset : Nat) (count : UInt32) :
    v.readFile computeTag path offset count =
      some (.ok (((v.contents inode).drop offset).take count.toNat)) := by
  have shaped := inv.shaped n inode (lookup_eq_ok.mp found).2
  unfold readFile
  simp only [found]
  rw [if_neg (not_not.mpr regular)]
  by_cases outside : offset ≥ inode.size ∨ count = 0
  · rw [if_pos outside]
    rcases outside with beyond | rfl
    · rw [drop_of_length_le (by rwa [length_contents]), take_nil]
    · rfl
  · rw [if_neg outside]
    obtain ⟨within, counts⟩ := not_or.mp outside
    have positive : 0 < count.toNat := by
      rw [pos_iff_ne_zero]
      exact fun zero => counts (UInt32.toNat_inj.mp zero)
    have bound := count.toNat_lt
    have short := shaped.short
    have size := shaped.size
    have sum : addU64 offset count.toNat = some (offset + count.toNat) := by
      apply addU64_of_lt
      simp only [blockSize] at *
      omega
    have nonempty : offset < min (offset + count.toNat) inode.size := by omega
    rw [sum, drop_take_contents]
    simp only [bind_eq_bind, bind_some, Option.pure_def, blockIdxs]
    rw [inv.readBlocks_eq (e := ⟨offset, min (offset + count.toNat) inode.size⟩) nonempty le_rfl
      (by have := first_le_last (e := ⟨offset, min (offset + count.toNat) inode.size⟩) nonempty
          omega), cut_first nonempty]

end NexaCore.Fs.OnDiskVolume
