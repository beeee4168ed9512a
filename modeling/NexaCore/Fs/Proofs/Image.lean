import NexaCore.Fs.Image
import NexaCore.Fs.Proofs.Invariant

/-!
# The blocks of a volume image

What `sync_to_bytes` puts into each block of the image (`Layout`) and what `mount` reads from an
image with these blocks. The data blocks lie in the image in the order of their numbers, from
block 3 on; those for which there is no room before the last block are left out. `mount` gives
them to the allocated blocks in that order.
-/

namespace NexaCore.Fs.OnDiskVolume

open Misc Std List Option ExtTreeMap Nat BlockBitmap Prod Function
open Elf (leValue toLeBytes length_toLeBytes leValue_toLeBytes)

variable {v : OnDiskVolume} {raw out : List UInt8} {total : Nat}

/-- The bytes of a block that starts with `bytes` and has zeros after them. -/
def padded (bytes : List UInt8) : List UInt8 := bytes ++ List.replicate (blockSize - bytes.length) 0

/-! ## Writing -/

/-- The image has `total` blocks, the block `i` of them with the bytes `content i`. -/
structure Contains (total : Nat) (out : List UInt8) (content : Nat → List UInt8) : Prop where
  length : out.length = total * blockSize
  blocks : ∀ i < total, blockAt blockSize out i = content i

variable {content : Nat → List UInt8}

theorem Contains.copyInto (contains : Contains total out content) (bytes : List UInt8) {j : Nat}
    (below : j < total) (short : bytes.length ≤ blockSize) :
    ∃ out', copyInto out (j * blockSize) bytes = some out' ∧
      Contains total out' (update content j (bytes ++ (content j).drop bytes.length)) := by
  have room : (j + 1) * blockSize ≤ out.length := by
    rw [contains.length]
    exact mul_le_mul_right _ below
  have next : (j + 1) * blockSize = j * blockSize + blockSize := succ_mul _ _
  have inside : j * blockSize + bytes.length ≤ out.length := by omega
  refine ⟨_, if_pos inside, (length_overlay inside).trans contains.length, fun i inImage => ?_⟩
  have changed := blockAt_overlay short room i
  rw [contains.blocks i inImage, contains.blocks j below] at changed
  exact changed.trans (update_apply _ _ _ _).symm

theorem blockNumToPhysical_eq {i : Nat} {entry : Nat × List UInt8}
    (here : v.dataBlocks.toList[i]? = some entry) : v.blockNumToPhysical entry.1 = 3 + i := by
  have key : v.dataBlocks.keys[i]? = some entry.1 := by
    rw [← map_fst_toList_eq_keys, getElem?_map, here]
    rfl
  have first : v.dataBlocks.keys.findIdx? (· == entry.1) = some i := by
    rw [findIdx?_eq_some_iff_getElem]
    obtain ⟨below, same⟩ := List.getElem?_eq_some_iff.mp key
    refine ⟨below, by simp [same], fun j before => ?_⟩
    have apart := List.pairwise_iff_getElem.mp (ExtTreeMap.nodup_keys (t := v.dataBlocks)) j i
      (by omega) below before
    rw [same] at apart
    simpa using apart
  rw [blockNumToPhysical, first]
  rfl

/-- The loop over the data blocks, from the one for the block `base` of the image on. -/
theorem foldlM_writeDataBlock {entries : List (Nat × List UInt8)} {base : Nat}
    (positive : 0 < base)
    (places : ∀ (i : Nat) (e : Nat × List UInt8), entries[i]? = some e →
      v.blockNumToPhysical e.1 = base + i ∧ e.2.length = blockSize)
    (contains : Contains total out content) :
    ∃ out', entries.foldlM (v.writeDataBlock total) out = some out' ∧
      Contains total out' fun j => if base ≤ j ∧ j < total - 1 then
        (entries[j - base]?.map snd).getD (content j) else content j := by
  induction entries generalizing out content base with
  | nil => exact ⟨out, rfl, by simpa using contains⟩
  | cons e entries ih =>
    obtain ⟨place, whole⟩ := places 0 e rfl
    rw [add_zero] at place
    have places' : ∀ (i : Nat) (e' : Nat × List UInt8), entries[i]? = some e' →
        v.blockNumToPhysical e'.1 = base + 1 + i ∧ e'.2.length = blockSize := by
      intro i e' here
      obtain ⟨place', whole'⟩ := places (i + 1) e' here
      exact ⟨place'.trans (by omega), whole'⟩
    rw [foldlM_cons, writeDataBlock]
    simp only [place]
    by_cases room : base < total - 1
    · have all : e.2.take (min e.2.length blockSize) = e.2 := by
        rw [take_of_length_le]
        omega
      have covered : (content base).drop e.2.length = [] := by
        rw [whole, drop_eq_nil_iff, ← contains.blocks base (by omega)]
        exact length_take_le _ _
      obtain ⟨middle, copied, contains⟩ := contains.copyInto e.2 (j := base) (by omega) whole.le
      obtain ⟨out', run, contains⟩ := ih (succ_pos base) places' contains
      refine ⟨out', ?_, contains.length, fun j below => (contains.blocks j below).trans ?_⟩
      · rw [if_pos ⟨positive, room⟩, all, copied]
        exact run
      · rw [covered, append_nil]
        rcases Nat.lt_trichotomy j base with before | rfl | after
        · simp (disch := omega) only [if_neg, update_of_ne]
        · simp (disch := omega) [room]
          rfl
        · have index : j - base = j - (base + 1) + 1 := by omega
          simp (disch := omega) only [index, getElem?_cons_succ, update_of_ne,
            succ_le_iff.mpr after, after.le, true_and]
    · obtain ⟨out', run, contains⟩ := ih (succ_pos base) places' contains
      refine ⟨out', ?_, contains.length, fun j below => (contains.blocks j below).trans ?_⟩
      · rw [if_neg fun h => room h.2]
        exact run
      · rw [if_neg (by omega), if_neg (by omega)]

/-- The blocks of the image of `v`. -/
structure Layout (v : OnDiskVolume) (raw : List UInt8) : Prop where
  length : raw.length = v.superblock.totalBlocks * blockSize
  superblock : blockAt blockSize raw 0 = padded (superblockBytes v.superblock)
  bitmap : blockAt blockSize raw 1 = padded v.bitmap.bits
  table : blockAt blockSize raw 2 = padded (serializeInodes v.inodes v.pathMap)
  data : ∀ i, 3 + i < v.superblock.totalBlocks - 1 → blockAt blockSize raw (3 + i) =
    (v.dataBlocks.toList[i]?.map Prod.snd).getD (List.replicate blockSize 0)
  tags : blockAt blockSize raw (v.superblock.totalBlocks - 1) =
    padded (integrityBytes v.integrityTags)

theorem length_integrityBytes_le (tags : ExtTreeMap Nat Tag) :
    (integrityBytes tags).length ≤ blockSize := by
  have entry : ∀ e : Nat × Tag, (integrityEntry e.1 e.2).length = 24 := by
    intro e
    rw [integrityEntry, length_append, length_toLeBytes, Vector.length_toList]
    rfl
  have count : (tags.toList.take integrityEntriesPerBlock).length ≤ 170 := length_take_le _ _
  simp only [integrityBytes, length_flatMap, entry, map_const', sum_replicate,
    smul_eq_mul, blockSize]
  omega

theorem syncToBytes_layout (magic : v.superblock.magic = fsMagic)
    (enough : 4 ≤ v.superblock.totalBlocks)
    (blocks : ∀ (b : Nat) (block : List UInt8), v.dataBlocks[b]? = some block →
      block.length = blockSize)
    (bitmap : v.bitmap.bits.length ≤ blockSize)
    (table : (serializeInodes v.inodes v.pathMap).length ≤ blockSize)
    (tags : v.integrityTags.size ≤ integrityEntriesPerBlock) :
    ∃ raw, v.syncToBytes = some (.ok raw) ∧ v.Layout raw := by
  have start : Contains v.superblock.totalBlocks
      (replicate (v.superblock.totalBlocks * blockSize) 0)
      fun _ => replicate blockSize 0 :=
    ⟨length_replicate, fun i below => blockAt_replicate 0 below⟩
  have header : (superblockBytes v.superblock).length = 64 := by
    simp [superblockBytes, magic, fsMagic]
  obtain ⟨out₀, copied₀, contains₀⟩ := start.copyInto (superblockBytes v.superblock)
    (j := 0) (by omega) (by rw [header]; decide)
  obtain ⟨out₁, copied₁, contains₁⟩ := contains₀.copyInto v.bitmap.bits (j := 1) (by omega) bitmap
  obtain ⟨out₂, copied₂, contains₂⟩ := contains₁.copyInto (serializeInodes v.inodes v.pathMap)
    (j := 2) (by omega) table
  obtain ⟨out₃, copied₃, contains₃⟩ : ∃ out₃, (if v.superblock.totalBlocks > 4 then
      v.dataBlocks.toList.foldlM (v.writeDataBlock v.superblock.totalBlocks) out₂ else some out₂) =
        some out₃ ∧ Contains v.superblock.totalBlocks out₃ fun j =>
          if 3 ≤ j ∧ j < v.superblock.totalBlocks - 1 then
            (v.dataBlocks.toList[j - 3]?.map snd).getD (_ : List UInt8) else _ := by
    by_cases room : v.superblock.totalBlocks > 4
    · rw [if_pos room]
      refine foldlM_writeDataBlock (by decide) (fun i e here => ⟨blockNumToPhysical_eq here, ?_⟩)
        contains₂
      exact blocks e.1 e.2 (mem_toList_iff_getElem?_eq_some.mp (mem_of_getElem? here))
    · rw [if_neg room]
      refine ⟨out₂, rfl, contains₂.length, fun j below => ?_⟩
      rw [if_neg (by omega), contains₂.blocks j below]
  obtain ⟨raw, copied₄, contains₄⟩ := contains₃.copyInto (integrityBytes v.integrityTags)
    (j := v.superblock.totalBlocks - 1) (by omega) (length_integrityBytes_le _)
  refine ⟨raw, ?_, contains₄.length, ?_, ?_, ?_, fun i room => ?_, ?_⟩
  · have first : sliceRange (replicate (v.superblock.totalBlocks * blockSize) (0 : UInt8)) 0
        blockSize = some (replicate blockSize 0) := by
      have block := start.blocks 0 (by omega)
      rw [blockAt, Nat.zero_mul] at block
      rw [sliceRange, Nat.sub_zero, if_pos, block]
      rw [length_replicate]
      simp only [blockSize]
      omega
    rw [Nat.zero_mul] at copied₀
    rw [Nat.one_mul] at copied₁
    unfold syncToBytes
    simp (disch := omega) only [if_neg, if_pos, first, copied₀, copied₁, copied₂,
      bind_eq_bind, bind_some, Option.pure_def]
    by_cases room : v.superblock.totalBlocks > 4
    · rw [if_pos room] at copied₃ ⊢
      rw [copied₃, bind_some, copied₄, bind_some]
    · rw [if_neg room] at copied₃ ⊢
      rw [some_inj.mp copied₃, copied₄, bind_some]
  all_goals
    rw [contains₄.blocks _ (by omega)]
    simp (disch := omega) only [update_of_ne, update_self, if_neg, if_pos,
      drop_replicate, padded, Nat.add_sub_cancel_left]

/-! ## Reading -/

theorem length_padded {bytes : List UInt8} (short : bytes.length ≤ blockSize) :
    (padded bytes).length = blockSize := by
  rw [padded, length_append, length_replicate]
  omega

theorem leField_append {front rest : List UInt8} {start width value : Nat}
    (size : front.length = start) (fits : value < 256 ^ width) :
    leField (front ++ (toLeBytes width value ++ rest)) start width = value := by
  rw [leField, drop_left' size, take_left' (length_toLeBytes _ _), leValue_toLeBytes fits]

theorem parseSuperblock_padded {sb : Superblock} (magic : sb.magic = fsMagic)
    (version : sb.version = fsVersion) (total : sb.totalBlocks < 2 ^ 64) :
    ∃ sb', parseSuperblock (padded (superblockBytes sb)) = .ok sb' ∧
      sb'.totalBlocks = sb.totalBlocks := by
  have header : (superblockBytes sb).length = 64 := by
    simp [superblockBytes, magic, fsMagic]
  have long : ¬(padded (superblockBytes sb)).length < 64 := by
    rw [length_padded (by rw [header]; decide)]
    decide
  have bytes : ∃ rest, padded (superblockBytes sb) =
      fsMagic ++ (toLeBytes 4 fsVersion ++ (toLeBytes 4 sb.blockSize ++
        (toLeBytes 8 sb.totalBlocks ++ rest))) := by
    rw [padded, superblockBytes, magic, version]
    simp only [append_assoc]
    exact ⟨_, rfl⟩
  obtain ⟨rest, bytes⟩ := bytes
  have start : (padded (superblockBytes sb)).take 8 = fsMagic := by
    rw [bytes, take_left' (by rfl)]
  have second : leField (padded (superblockBytes sb)) 8 4 = fsVersion := by
    rw [bytes]
    exact leField_append rfl (by decide)
  have blocks : leField (padded (superblockBytes sb)) 16 8 = sb.totalBlocks := by
    rw [bytes, ← append_assoc, ← append_assoc]
    exact leField_append (by simp [fsMagic]) total
  rw [parseSuperblock, if_neg long, if_neg (not_not.mpr start), if_neg (not_not.mpr second)]
  exact ⟨_, rfl, blocks⟩

theorem leValue_replicate_zero (n : Nat) : leValue (replicate n 0) = 0 := by
  induction n with
  | zero => rfl
  | succ n ih =>
    rw [replicate_succ, leValue, ih]
    rfl

/-- The loop over the integrity region inserts its entries and stops at the zeros. -/
theorem deserializeTags_entries (entries : List (Nat × Tag))
    (fits : ∀ e ∈ entries, 0 < e.1 ∧ e.1 < 2 ^ 64) {count : Nat} (enough : entries.length ≤ count)
    (zeros : Nat) (tags : ExtTreeMap Nat Tag) :
    deserializeTags count (entries.flatMap (fun e => integrityEntry e.1 e.2) ++
      replicate zeros 0) tags = insertAll fst snd entries tags := by
  induction entries generalizing count tags with
  | nil =>
    cases count with
    | zero => rfl
    | succ count =>
      have stop : leField (replicate zeros 0) 0 8 = 0 := by
        rw [leField, drop_zero, take_replicate, leValue_replicate_zero]
      rw [flatMap_nil, nil_append, deserializeTags]
      simp only [stop, if_true]
      rfl
  | cons e entries ih =>
    cases count with
    | zero => cases enough
    | succ count =>
      obtain ⟨positive, bound⟩ := fits e (.head _)
      obtain ⟨rest, tail⟩ : ∃ rest, rest = entries.flatMap (fun e => integrityEntry e.1 e.2) ++
          replicate zeros 0 := ⟨_, rfl⟩
      have number : leField ([] ++ (toLeBytes 8 e.1 ++ (e.2.toList ++ rest))) 0 8 = e.1 :=
        leField_append rfl bound
      rw [nil_append] at number
      have tag : (Vector.ofFn fun i : Fin tagLen =>
          (toLeBytes 8 e.1 ++ (e.2.toList ++ rest)).getD (8 + i) 0) = e.2 := by
        apply Vector.ext
        intro i below
        have inTag : i < e.2.toList.length := by rwa [Vector.length_toList]
        rw [Vector.getElem_ofFn, getD_eq_getElem?_getD,
          getElem?_append_right (by rw [length_toLeBytes]; exact le_add_right _ _),
          length_toLeBytes, Nat.add_sub_cancel_left, getElem?_append_left inTag,
          getElem?_eq_getElem inTag, getD_some, Vector.getElem_toList]
      have next : (toLeBytes 8 e.1 ++ (e.2.toList ++ rest)).drop integrityEntrySize = rest := by
        rw [← append_assoc]
        apply drop_left'
        rw [length_append, length_toLeBytes, Vector.length_toList]
        rfl
      rw [flatMap_cons, append_assoc, ← tail, integrityEntry, append_assoc, deserializeTags]
      simp only [number, tag, next, if_neg positive.ne']
      rw [tail, ih (fun e mem => fits e (.tail _ mem)) (by simpa using enough)]
      rfl

theorem deserializeIntegrityTags_padded {tags : ExtTreeMap Nat Tag}
    (few : tags.size ≤ integrityEntriesPerBlock)
    (fits : ∀ (b : Nat) (tag : Tag), tags[b]? = some tag → 0 < b ∧ b < 2 ^ 64) :
    deserializeIntegrityTags (padded (integrityBytes tags)) = tags := by
  have all : tags.toList.take integrityEntriesPerBlock = tags.toList := by
    rw [take_of_length_le]
    rwa [ExtTreeMap.length_toList]
  rw [deserializeIntegrityTags, length_padded (length_integrityBytes_le tags), padded,
    integrityBytes, all, deserializeTags_entries _ _ (by rw [ExtTreeMap.length_toList]; exact few)]
  · apply insertAll_eq (nodup_map_fst_toList tags)
    intro b tag
    constructor
    · intro found
      exact ⟨(b, tag), ExtTreeMap.mem_toList_iff_getElem?_eq_some.mpr found, rfl, rfl⟩
    · rintro ⟨e, mem, rfl, rfl⟩
      exact ExtTreeMap.mem_toList_iff_getElem?_eq_some.mp mem
  · intro e mem
    exact fits e.1 e.2 (ExtTreeMap.mem_toList_iff_getElem?_eq_some.mp mem)

/-- The loop over the allocated blocks, from the block `first` of the image on. -/
theorem getElem?_deserializeBlocks {bs : List Nat} (distinct : bs.Nodup) (first last : Nat)
    (result : ExtTreeMap Nat (List UInt8)) :
    (∀ (i b : Nat), bs[i]? = some b →
      (deserializeBlocks raw (last * blockSize) bs (first * blockSize) result)[b]? =
        if first + i < last then some (blockAt blockSize raw (first + i)) else result[b]?) ∧
    ∀ b : Nat, b ∉ bs →
      (deserializeBlocks raw (last * blockSize) bs (first * blockSize) result)[b]? =
        result[b]? := by
  induction bs generalizing first result with
  | nil => exact ⟨fun i b here => (by cases here), fun b _ => rfl⟩
  | cons a bs ih =>
    obtain ⟨fresh, distinct⟩ := nodup_cons.mp distinct
    have next : first * blockSize + blockSize = (first + 1) * blockSize := (succ_mul _ _).symm
    rw [deserializeBlocks, next]
    by_cases room : first < last
    · have inside : (first + 1) * blockSize ≤ last * blockSize := mul_le_mul_right _ room
      rw [if_pos inside]
      obtain ⟨members, others⟩ := ih distinct (first + 1)
        (result.insert a ((raw.drop (first * blockSize)).take blockSize))
      constructor
      · intro i b here
        cases i with
        | zero =>
          rw [getElem?_cons_zero, some_inj] at here
          subst here
          rw [others _ fresh, getElem?_insert_eq, if_pos rfl, add_zero, if_pos room]
          rfl
        | succ i =>
          have other : b ≠ a := by
            rintro rfl
            exact fresh (mem_of_getElem? here)
          rw [members i b here, getElem?_insert_eq, if_neg other, add_assoc, add_comm 1 i]
      · intro b absent
        obtain ⟨other, absent⟩ := not_or.mp (mt mem_cons.mpr absent)
        rw [others b absent, getElem?_insert_eq, if_neg other]
    · have outside : ¬(first + 1) * blockSize ≤ last * blockSize := by
        rw [Nat.mul_le_mul_right_iff (by decide)]
        omega
      rw [if_neg outside]
      exact ⟨fun i b _ => by rw [if_neg (by omega)], fun b _ => rfl⟩

theorem fromBytes_padded (b : BlockBitmap) (short : b.bits.length ≤ blockSize)
    (fits : b.totalBlocks + 7 < 2 ^ 64) :
    ∃ b', fromBytes (padded b.bits) b.totalBlocks = some (some b') ∧
      b'.isAllocated = b.isAllocated := by
  have enough : (b.totalBlocks + 7) / 8 ≤ (padded b.bits).length := by
    rw [length_padded short, ← b.sized]
    exact short
  have bits : (padded b.bits).take ((b.totalBlocks + 7) / 8) = b.bits := by
    rw [padded, take_left' b.sized]
  unfold fromBytes
  rw [addU64_of_lt fits, dif_pos enough]
  refine ⟨_, rfl, ?_⟩
  funext n
  simp only [isAllocated, byte, bits]

theorem sliceRange_block {i : Nat} (inside : (i + 1) * blockSize ≤ raw.length) :
    sliceRange raw (i * blockSize) (min (i * blockSize + blockSize) raw.length) =
      some (blockAt blockSize raw i) := by
  have next : (i + 1) * blockSize = i * blockSize + blockSize := succ_mul _ _
  rw [Nat.min_eq_left (by omega), sliceRange, if_pos (by omega), Nat.add_sub_cancel_left]
  rfl

theorem mount_layout (layout : v.Layout raw) (magic : v.superblock.magic = fsMagic)
    (version : v.superblock.version = fsVersion) (enough : 4 ≤ v.superblock.totalBlocks)
    (few : v.superblock.totalBlocks ≤ maxV1TotalBlocks)
    (total : v.superblock.totalBlocks = v.bitmap.totalBlocks)
    (table : (serializeInodes v.inodes v.pathMap).length ≤ blockSize)
    (encodable : Encodable v.inodes v.pathMap)
    (tags : v.integrityTags.size ≤ integrityEntriesPerBlock)
    (numbers : ∀ (b : Nat) (tag : Tag), v.integrityTags[b]? = some tag → 0 < b ∧ b < 2 ^ 64) :
    ∃ m, mount raw = some (.ok m) ∧ m.inodes = v.inodes ∧ m.pathMap = v.pathMap ∧
      m.integrityTags = v.integrityTags ∧
      m.dataBlocks =
        if v.superblock.totalBlocks > 4 then
          deserializeDataBlocks raw (3 * blockSize) ((v.superblock.totalBlocks - 1) * blockSize)
            v.bitmap v.superblock.totalBlocks
        else ∅ := by
  have inside : ∀ i, i < v.superblock.totalBlocks → (i + 1) * blockSize ≤ raw.length := by
    intro i below
    rw [layout.length]
    exact mul_le_mul_right _ below
  simp only [maxV1TotalBlocks, blockSize] at few
  have bits : v.bitmap.bits.length ≤ blockSize := by
    rw [v.bitmap.sized, ← total, blockSize]
    omega
  obtain ⟨sb, parsed, blocks⟩ := parseSuperblock_padded magic version (by omega)
  obtain ⟨bitmap, restored, allocated⟩ := fromBytes_padded v.bitmap bits (by omega)
  rw [← total] at restored
  obtain ⟨next, decoded⟩ := encodable.deserializeInodes_serializeInodes (by
      have count := size_le_length_serializeInodes v.inodes v.pathMap
      simp only [blockSize] at table
      omega)
    (replicate (blockSize - (serializeInodes v.inodes v.pathMap).length) 0)
  have long : ¬raw.length < blockSize := by
    have first := inside 0 (by omega)
    omega
  have start : raw.take blockSize = padded (superblockBytes v.superblock) := by
    rw [← layout.superblock, blockAt, zero_mul, drop_zero]
  have bytes : mulU64 v.superblock.totalBlocks blockSize =
      some (v.superblock.totalBlocks * blockSize) := by
    apply mulU64_of_lt
    simp only [blockSize]
    omega
  have second := sliceRange_block (inside 1 (by omega))
  have third := sliceRange_block (inside 2 (by omega))
  rw [one_mul, layout.bitmap] at second
  rw [layout.table] at third
  have last : (v.superblock.totalBlocks - 1) * blockSize + blockSize ≤ raw.length := by
    have block := inside (v.superblock.totalBlocks - 1) (by omega)
    rwa [succ_mul] at block
  have region : (raw.drop ((v.superblock.totalBlocks - 1) * blockSize)).take blockSize =
      padded (integrityBytes v.integrityTags) := layout.tags
  unfold mount
  rw [if_neg long, start, parsed]
  simp only [blocks, bytes, second, third, bind_eq_bind, bind_some, Option.pure_def]
  rw [if_neg (by rw [layout.length]; exact lt_irrefl _), restored]
  simp only [bind_some]
  rw [padded, decoded]
  simp only [bind_some]
  refine ⟨_, rfl, rfl, rfl, ?_, ?_⟩
  · simp only [region]
    rw [if_pos ⟨by omega, last⟩, deserializeIntegrityTags_padded tags numbers]
  · simp only [deserializeDataBlocks, allocated]

end NexaCore.Fs.OnDiskVolume
