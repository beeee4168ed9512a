import NexaCore.Fs.InodeTable
import NexaCore.Kernel.Elf.Proofs.Fields
import NexaCore.Misc.MapFold

/-!
# The encoded inode table

The length of the table, which bounds the block lists of the inodes, and the decoder as
the inverse of the encoder: a table in which every inode has one path, with numbers and
lengths that fit their fields, is decoded to itself.
-/

namespace NexaCore.Fs

open Misc Std List Option ExtTreeMap Prod
open Elf (toLeBytes length_toLeBytes leValue_toLeBytes)

/-! ## Lengths -/

theorem length_serializeInode (inode : Inode) (path : String) :
    (serializeInode inode path).length = 58 + 8 * inode.blocks.length + byteLen path := by
  simp only [serializeInode, length_append, length_cons, length_replicate,
    length_toLeBytes, length_flatMap, map_const', sum_replicate, smul_eq_mul, byteLen]
  omega

theorem length_serializeInodes_ge {inodes : ExtTreeMap Nat Inode} {pathMap : ExtTreeMap String Nat}
    {n : Nat} {inode : Inode} (found : inodes[n]? = some inode) :
    66 + 8 * inode.blocks.length ≤ (serializeInodes inodes pathMap).length := by
  have mem : (n, inode) ∈ inodes.toList := mem_toList_iff_getElem?_eq_some.mpr found
  have le : (inodeRecord pathMap (n, inode)).length ≤
      (inodes.toList.flatMap (inodeRecord pathMap)).length := by
    rw [length_flatMap]
    exact single_le_sum (by simp) _ (mem_map.mpr ⟨(n, inode), mem, rfl⟩)
  rw [inodeRecord, length_serializeInode] at le
  rw [serializeInodes, length_append, length_toLeBytes]
  dsimp only at le
  omega

theorem size_le_length_serializeInodes (inodes : ExtTreeMap Nat Inode)
    (pathMap : ExtTreeMap String Nat) : inodes.size ≤ (serializeInodes inodes pathMap).length := by
  have positive : ∀ k ∈ inodes.toList.map fun e => (inodeRecord pathMap e).length, 1 ≤ k := by
    intro k mem
    obtain ⟨e, -, rfl⟩ := mem_map.mp mem
    rw [inodeRecord, length_serializeInode]
    omega
  have count := length_le_sum_of_one_le _ positive
  rw [length_map, ExtTreeMap.length_toList] at count
  rw [serializeInodes, length_append, length_flatMap]
  omega

/-! ## Paths -/

theorem decodeLossy_flatMap (chars : List Char) (fuel : Nat)
    (enough : (chars.flatMap String.utf8EncodeChar).length ≤ fuel) :
    decodeLossy fuel (chars.flatMap String.utf8EncodeChar) = chars := by
  induction chars generalizing fuel with
  | nil => cases fuel <;> rfl
  | cons c chars ih =>
    have size := String.length_utf8EncodeChar c
    have positive := c.utf8Size_pos
    rw [flatMap_cons, length_append] at enough
    have decoded : (String.utf8EncodeChar c ++
        chars.flatMap String.utf8EncodeChar).toByteArray.utf8DecodeChar? 0 = some c := by
      rw [toByteArray_append, ByteArray.utf8DecodeChar?_utf8EncodeChar_append]
    have rest : (String.utf8EncodeChar c ++ chars.flatMap String.utf8EncodeChar).drop c.utf8Size =
        chars.flatMap String.utf8EncodeChar := by
      rw [← size, drop_left]
    rw [flatMap_cons]
    cases fuel with
    | zero => omega
    | succ fuel =>
      cases bytes : String.utf8EncodeChar c ++ chars.flatMap String.utf8EncodeChar with
      | nil =>
        have empty := congrArg length bytes
        rw [length_append, length_nil] at empty
        omega
      | cons byte others =>
        rw [bytes] at decoded rest
        rw [decodeLossy, decoded]
        simp only [rest]
        rw [ih fuel (by omega)]

/-! ## Records -/

theorem takeLe_toLeBytes {width value : Nat} (fits : value < 256 ^ width) (rest : List UInt8) :
    takeLe width (toLeBytes width value ++ rest) = some (value, rest) := by
  have enough : width ≤ (toLeBytes width value ++ rest).length := by
    rw [length_append, length_toLeBytes]
    omega
  rw [takeLe, if_pos enough, take_left' (length_toLeBytes _ _), leValue_toLeBytes fits,
    drop_left' (length_toLeBytes _ _)]

theorem takeBlocks_flatMap (blocks : List Nat) (fits : ∀ b ∈ blocks, b < 256 ^ 8)
    (rest : List UInt8) :
    takeBlocks blocks.length (blocks.flatMap (toLeBytes 8) ++ rest) = (blocks, rest) := by
  induction blocks with
  | nil => rfl
  | cons b blocks ih =>
    have long : ¬(toLeBytes 8 b ++ (blocks.flatMap (toLeBytes 8) ++ rest)).length < 8 := by
      rw [length_append, length_toLeBytes]
      omega
    rw [flatMap_cons, append_assoc, length_cons, takeBlocks, if_neg long,
      drop_left' (length_toLeBytes _ _), take_left' (length_toLeBytes _ _),
      leValue_toLeBytes (fits b (.head _)),
      ih fun b mem => fits b (.tail _ mem)]

structure Fits (inode : Inode) (path : String) : Prop where
  number : inode.inodeNumber < 2 ^ 64
  size : inode.size < 2 ^ 64
  count : inode.blockCount < 2 ^ 32
  created : inode.created < 2 ^ 64
  modified : inode.modified < 2 ^ 64
  short : inode.blocks.length < 2 ^ 60
  blocks : ∀ b ∈ inode.blocks, b < 2 ^ 64
  pathLength : byteLen path < 2 ^ 16
  name : inode.name = basename path

theorem deserializeInode_serializeInode {inode : Inode} {path : String} (fits : Fits inode path)
    (rest : List UInt8) :
    deserializeInode (serializeInode inode path ++ rest) = some (some (inode, path, rest)) := by
  have long : ¬(serializeInode inode path ++ rest).length < 40 := by
    rw [length_append, length_serializeInode]
    omega
  have kind : (if inode.fileType.code = 0 then FileType.regularFile else .directory) =
      inode.fileType := by
    cases inode.fileType <;> rfl
  have short := fits.short
  have header : ∀ tail : List UInt8,
      ¬(toLeBytes 8 inode.blocks.length ++ tail).length < 8 := by
    intro tail
    rw [length_append, length_toLeBytes]
    omega
  have pathHeader : ¬(toLeBytes 2 (byteLen path) ++ (utf8Bytes path ++ rest)).length < 2 := by
    rw [length_append, length_toLeBytes]
    omega
  have pathBytes : ¬(utf8Bytes path ++ rest).length < byteLen path := by
    rw [length_append, byteLen]
    omega
  have padding : ∀ (code : UInt8) (tail : List UInt8),
      (code :: (replicate 7 0 ++ tail)).drop 8 = tail := fun _ _ => rfl
  have bytes : (utf8Bytes path).length = byteLen path := rfl
  unfold deserializeInode
  rw [if_neg long]
  simp only [serializeInode, append_assoc, cons_append]
  rw [takeLe_toLeBytes fits.number]
  simp only [bind_eq_bind, bind_some, Option.pure_def, head?_cons]
  rw [padding, takeLe_toLeBytes fits.size]
  simp only [bind_some]
  rw [takeLe_toLeBytes fits.count]
  simp only [bind_some]
  rw [drop_left' length_replicate, takeLe_toLeBytes fits.created]
  simp only [bind_some]
  rw [takeLe_toLeBytes fits.modified]
  simp only [bind_some]
  rw [if_neg (header _), takeLe_toLeBytes (by omega)]
  simp only [bind_some]
  rw [if_neg (by omega), takeBlocks_flatMap _ fits.blocks]
  simp only
  rw [if_neg pathHeader, takeLe_toLeBytes fits.pathLength]
  simp only [bind_some]
  rw [if_neg pathBytes, take_left' bytes, drop_left' bytes, fromUtf8Lossy, utf8Bytes,
    decodeLossy_flatMap _ _ le_rfl, String.ofList_toList, kind, ← fits.name]

/-! ## Tables -/

def recordPath (pathMap : ExtTreeMap String Nat) (inode : Inode) : String :=
  (inodeToPath pathMap)[inode.inodeNumber]?.getD "/"

/-- The loop of the decoder inserts the inodes of the records and their paths. -/
theorem deserializeLoop_records (pathOf : Inode → String) (entries : List (Nat × Inode))
    (fits : ∀ e ∈ entries, Fits e.2 (pathOf e.2))
    (last : ∀ e ∈ entries, e.2.inodeNumber + 1 < 2 ^ 64) (rest : List UInt8) (table : InodeTable) :
    ∃ next, deserializeLoop entries.length
        (entries.flatMap (fun e => serializeInode e.2 (pathOf e.2)) ++ rest) table = some {
      inodes := insertAll (fun e => e.2.inodeNumber) snd entries table.inodes
      pathMap := insertAll (fun e => pathOf e.2) (fun e => e.2.inodeNumber) entries table.pathMap
      nextInode := next } := by
  induction entries generalizing table with
  | nil => exact ⟨table.nextInode, rfl⟩
  | cons e entries ih =>
    have fits' := fun e mem => fits e (.tail _ mem)
    have last' := fun e mem => last e (.tail _ mem)
    obtain ⟨middle, turn⟩ : ∃ middle, deserializeLoop (entries.length + 1)
        (serializeInode e.2 (pathOf e.2) ++
          (entries.flatMap (fun e => serializeInode e.2 (pathOf e.2)) ++ rest)) table =
        deserializeLoop entries.length
          (entries.flatMap (fun e => serializeInode e.2 (pathOf e.2)) ++ rest) {
            inodes := table.inodes.insert e.2.inodeNumber e.2
            pathMap := table.pathMap.insert (pathOf e.2) e.2.inodeNumber
            nextInode := middle } := by
      rw [deserializeLoop, deserializeInode_serializeInode (fits e (.head _))]
      simp only [bind_eq_bind, bind_some]
      split
      · exact ⟨_, by rw [addU64_of_lt (last e (.head _)), bind_some]⟩
      · exact ⟨_, rfl⟩
    obtain ⟨next, decoded⟩ := ih fits' last' {
      inodes := table.inodes.insert e.2.inodeNumber e.2
      pathMap := table.pathMap.insert (pathOf e.2) e.2.inodeNumber
      nextInode := middle }
    refine ⟨next, ?_⟩
    rw [flatMap_cons, append_assoc, length_cons, turn, decoded]
    rfl

/-- A table that its encoding describes: every inode has one path, its number is that of
its entry and the fields fit. The decoder adds one to every inode number. -/
structure Encodable (inodes : ExtTreeMap Nat Inode) (pathMap : ExtTreeMap String Nat) : Prop where
  number : ∀ (n : Nat) (inode : Inode), inodes[n]? = some inode → inode.inodeNumber = n
  last : ∀ (n : Nat) (inode : Inode), inodes[n]? = some inode → n + 1 < 2 ^ 64
  live : ∀ (p : String) (n : Nat), pathMap[p]? = some n → ∃ inode, inodes[n]? = some inode
  unique : ∀ (p q : String) (n : Nat), pathMap[p]? = some n → pathMap[q]? = some n → p = q
  named : ∀ (n : Nat) (inode : Inode), inodes[n]? = some inode → ∃ p : String, pathMap[p]? = some n
  fits : ∀ (p : String) (n : Nat) (inode : Inode), pathMap[p]? = some n →
    inodes[n]? = some inode → Fits inode p
  root : ∃ inode, inodes[rootInodeNumber]? = some inode

namespace Encodable

variable {inodes : ExtTreeMap Nat Inode} {pathMap : ExtTreeMap String Nat}
  (encodable : Encodable inodes pathMap)
include encodable

theorem recordPath_spec {n : Nat} {inode : Inode} (found : inodes[n]? = some inode) :
    pathMap[recordPath pathMap inode]? = some n := by
  obtain ⟨p, here⟩ := encodable.named n inode found
  have distinct : (pathMap.toList.map snd).Nodup := by
    refine (nodup_map_fst_toList pathMap).of_map.map_on fun x memX y memY same => ?_
    have hereX := mem_toList_iff_getElem?_eq_some.mp memX
    have hereY := mem_toList_iff_getElem?_eq_some.mp memY
    rw [same] at hereX
    exact Prod.ext (encodable.unique x.1 y.1 y.2 hereX hereY) same
  have inverted : (insertAll Prod.snd Prod.fst pathMap.toList ∅)[n]? = some p :=
    getElem?_insertAll_of_mem distinct (mem_toList_iff_getElem?_eq_some.mpr here)
  rw [recordPath, encodable.number n inode found]
  exact (congrArg (fun path : Option String => pathMap[path.getD "/"]?) inverted).trans here

theorem deserializeInodes_serializeInodes (few : inodes.size < 2 ^ 64) (rest : List UInt8) :
    ∃ next, deserializeInodes (serializeInodes inodes pathMap ++ rest) =
      some ⟨inodes, pathMap, next⟩ := by
  have entry : ∀ e ∈ inodes.toList, inodes[e.1]? = some e.2 := fun e mem =>
    mem_toList_iff_getElem?_eq_some.mp mem
  have number : ∀ e ∈ inodes.toList, e.2.inodeNumber = e.1 := fun e mem =>
    encodable.number e.1 e.2 (entry e mem)
  obtain ⟨next, decoded⟩ := deserializeLoop_records (recordPath pathMap) inodes.toList
    (fun e mem => encodable.fits _ e.1 e.2 (encodable.recordPath_spec (entry e mem)) (entry e mem))
    (fun e mem => by rw [number e mem]; exact encodable.last e.1 e.2 (entry e mem)) rest
    ⟨∅, ∅, firstUserInode⟩
  have sameInodes : insertAll (fun e => e.2.inodeNumber) snd inodes.toList ∅ = inodes := by
    apply insertAll_eq
    · rw [map_congr_left number]
      exact nodup_map_fst_toList inodes
    · intro n inode
      constructor
      · intro found
        exact ⟨(n, inode), mem_toList_iff_getElem?_eq_some.mpr found,
          encodable.number n inode found, rfl⟩
      · rintro ⟨e, mem, rfl, rfl⟩
        rw [number e mem, entry e mem]
  have samePaths : insertAll (fun e => recordPath pathMap e.2) (fun e => e.2.inodeNumber)
      inodes.toList ∅ = pathMap := by
    apply insertAll_eq
    · refine (nodup_map_fst_toList inodes).of_map.map_on fun x memX y memY same => ?_
      have hereX := encodable.recordPath_spec (entry x memX)
      have hereY := encodable.recordPath_spec (entry y memY)
      rw [same, hereY, some_inj] at hereX
      have foundX := entry x memX
      rw [← hereX, entry y memY, some_inj] at foundX
      exact Prod.ext hereX.symm foundX.symm
    · intro p n
      constructor
      · intro here
        obtain ⟨inode, found⟩ := encodable.live p n here
        exact ⟨(n, inode), mem_toList_iff_getElem?_eq_some.mpr found,
          encodable.unique _ _ n (encodable.recordPath_spec found) here,
          encodable.number n inode found⟩
      · rintro ⟨e, mem, rfl, rfl⟩
        rw [number e mem, encodable.recordPath_spec (entry e mem)]
  have long : ¬(serializeInodes inodes pathMap ++ rest).length < 8 := by
    rw [serializeInodes, length_append, length_append, length_toLeBytes]
    omega
  have root : rootInodeNumber ∈ inodes := by
    obtain ⟨inode, found⟩ := encodable.root
    exact mem_iff_isSome_getElem?.mpr (by rw [found]; rfl)
  refine ⟨next, ?_⟩
  rw [sameInodes, samePaths] at decoded
  rw [deserializeInodes, if_neg long, serializeInodes, append_assoc,
    take_left' (length_toLeBytes _ _), drop_left' (length_toLeBytes _ _),
    leValue_toLeBytes few, ← ExtTreeMap.length_toList]
  simp only [bind_eq_bind, Option.pure_def]
  have records : inodes.toList.flatMap (inodeRecord pathMap) =
      inodes.toList.flatMap fun e => serializeInode e.2 (recordPath pathMap e.2) := rfl
  rw [records, decoded, bind_some, if_pos root]

end Encodable

end NexaCore.Fs
