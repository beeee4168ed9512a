import NexaCore.Fs.V3.Superblock
import NexaCore.Kernel.Elf.Proofs.Fields

/-!
# Superblocks read back

Bytes put into a block are read back from where they were put and change nothing else, so a
superblock decodes to what was encoded.
-/

namespace NexaCore.Fs.V3

open Option List
open Elf (toLeBytes length_toLeBytes leValue_toLeBytes)

variable {block : Block} {off : Nat} {bytes : List UInt8}

theorem getElem?_putBytes (fits : off + bytes.length ≤ blockSize) (i : Nat) :
    (putBytes block off bytes).toList[i]? =
      if off ≤ i ∧ i < off + bytes.length then bytes[i - off]? else block.toList[i]? := by
  rw [putBytes, if_pos fits]
  by_cases inside : i < blockSize
  · have here : block.toList[i]? = some (block.get ⟨i, inside⟩) := by
      simp [inside, Vector.get]
    rw [here]
    simp only [Vector.toList_ofFn, List.getElem?_ofFn, inside, ↓reduceDIte]
    by_cases above : off ≤ i
    · by_cases below : i < off + bytes.length
      · have bound : i - off < bytes.length := by omega
        rw [if_pos above, if_pos ⟨above, below⟩, getD_eq_getElem?_getD,
          getElem?_eq_getElem bound, getD_some]
      · have bound : bytes.length ≤ i - off := by omega
        rw [if_pos above, if_neg (fun both => below both.2), getD_eq_getElem?_getD,
          getElem?_eq_none bound, getD_none]
    · rw [if_neg above, if_neg (fun both => above both.1)]
  · have outside : blockSize ≤ i := not_lt.mp inside
    rw [if_neg (by omega), getElem?_eq_none (by simpa using outside),
      getElem?_eq_none (by simpa using outside)]

theorem getBytes_eq_of_getElem? (fits : off + bytes.length ≤ blockSize)
    (here : ∀ i < bytes.length, block.toList[off + i]? = bytes[i]?) :
    getBytes block off bytes.length = some bytes := by
  rw [getBytes, if_pos fits, some_inj]
  refine ext_getElem? fun i => ?_
  rw [getElem?_take, getElem?_drop]
  split
  · exact here i ‹_›
  · exact (getElem?_eq_none (not_lt.mp ‹_›)).symm

theorem getBytes_putBytes_self (block : Block) (fits : off + bytes.length ≤ blockSize) :
    getBytes (putBytes block off bytes) off bytes.length = some bytes := by
  refine getBytes_eq_of_getElem? fits fun i bound => ?_
  rw [getElem?_putBytes fits, if_pos (by omega), Nat.add_sub_cancel_left]

variable {at' len : Nat}

theorem getBytes_putBytes_of_disjoint (apart : at' + len ≤ off ∨ off + bytes.length ≤ at') :
    getBytes (putBytes block off bytes) at' len = getBytes block at' len := by
  by_cases fits : off + bytes.length ≤ blockSize
  · rw [getBytes, getBytes]
    congr 2
    refine ext_getElem? fun i => ?_
    rw [getElem?_take, getElem?_take, getElem?_drop, getElem?_drop, getElem?_putBytes fits]
    split
    · rw [if_neg (by omega)]
    · rfl
  · rw [putBytes, if_neg fits]

theorem getBytes_putU32_of_disjoint {v : Nat} (apart : at' + len ≤ off ∨ off + 4 ≤ at') :
    getBytes (putU32 block off v) at' len = getBytes block at' len :=
  getBytes_putBytes_of_disjoint (by rwa [length_toLeBytes])

variable {v : UInt64}

theorem getBytes_putU64_of_disjoint (apart : at' + len ≤ off ∨ off + 8 ≤ at') :
    getBytes (putU64 block off v) at' len = getBytes block at' len :=
  getBytes_putBytes_of_disjoint (by rwa [length_toLeBytes])

theorem getBytes_putU64_self (fits : off + 8 ≤ blockSize) :
    getBytes (putU64 block off v) off 8 = some (toLeBytes 8 v.toNat) := by
  have room : off + (toLeBytes 8 v.toNat).length ≤ blockSize := by rwa [length_toLeBytes]
  have put := getBytes_putBytes_self block room
  rwa [length_toLeBytes] at put

theorem toHash_toList (hash : Hash) : toHash hash.toList = some hash := by
  rw [toHash, dif_pos hash.length_toList]
  rfl

variable {keyedHash : MacKey → List UInt8 → Hash}

theorem length_selfMac (block : Block) (key : MacKey) :
    (selfMac keyedHash block key).length = macLen := by
  rw [selfMac, length_take, Vector.length_toList]
  rfl

namespace SuperblockV3

variable {sb : SuperblockV3} {key : MacKey}

/-- The bytes before the authentication code are the encoded fields. -/
theorem getBytes_encode {off len : Nat} (before : off + len ≤ macOffset) :
    getBytes (sb.encode keyedHash key) off len = getBytes sb.encodeFields off len :=
  getBytes_putBytes_of_disjoint (.inl before)

theorem selfMac_encode (sb : SuperblockV3) (key : MacKey) :
    selfMac keyedHash (sb.encode keyedHash key) key = selfMac keyedHash sb.encodeFields key := by
  rw [selfMac, selfMac, getBytes_encode (by decide)]

theorem getBytes_encode_mac (sb : SuperblockV3) (key : MacKey) :
    getBytes (sb.encode keyedHash key) macOffset macLen =
      some (selfMac keyedHash (sb.encode keyedHash key) key) := by
  have room : macOffset + (selfMac keyedHash sb.encodeFields key).length ≤ blockSize := by
    rw [length_selfMac]
    decide
  have put := getBytes_putBytes_self sb.encodeFields room
  rw [length_selfMac] at put
  rw [selfMac_encode, encode, put]

theorem getBytes_encodeFields_root (sb : SuperblockV3) :
    getBytes sb.encodeFields 40 32 = some sb.merkleRoot.toList := by
  simp (disch := decide) only [encodeFields, getBytes_putU64_of_disjoint]
  have length : sb.merkleRoot.toList.length = 32 := sb.merkleRoot.length_toList
  rw [← length]
  exact getBytes_putBytes_self _ (by rw [length]; decide)

theorem getU64_encode (off : Nat) (v : UInt64)
    (put : getBytes sb.encodeFields off 8 = some (toLeBytes 8 v.toNat))
    (before : off + 8 ≤ macOffset) : getU64 (sb.encode keyedHash key) off = some v := by
  have small : v.toNat < 256 ^ 8 := v.toNat_lt
  rw [getU64, getBytes_encode before, put, map_some, leValue_toLeBytes small, UInt64.ofNat_toNat]

theorem decodeFields_encode (sb : SuperblockV3) (key : MacKey) :
    decodeFields (sb.encode keyedHash key) = some sb := by
  have across : ∀ block off, off + 8 ≤ 40 →
      getBytes (putBytes block 40 sb.merkleRoot.toList) off 8 = getBytes block off 8 :=
    fun block off before => getBytes_putBytes_of_disjoint (.inl before)
  rw [decodeFields, getBytes_encode (by decide), getBytes_encodeFields_root, bind_some,
    toHash_toList]
  rw [getU64_encode 16 sb.generation (by
    simp (disch := decide) only [encodeFields, getBytes_putU64_of_disjoint, across,
      getBytes_putU64_self]) (by decide)]
  rw [getU64_encode 24 sb.totalBlocks (by
    simp (disch := decide) only [encodeFields, getBytes_putU64_of_disjoint, across,
      getBytes_putU64_self]) (by decide)]
  rw [getU64_encode 32 sb.rootDirInode (by
    simp (disch := decide) only [encodeFields, getBytes_putU64_of_disjoint, across,
      getBytes_putU64_self]) (by decide)]
  rw [getU64_encode 72 sb.keyEpoch (by
    simp (disch := decide) only [encodeFields, getBytes_putU64_of_disjoint,
      getBytes_putU64_self]) (by decide)]
  rw [getU64_encode 80 sb.freeBlocks (by
    simp (disch := decide) only [encodeFields, getBytes_putU64_of_disjoint,
      getBytes_putU64_self]) (by decide)]
  rw [getU64_encode 88 sb.inodeCount (by
    simp (disch := decide) only [encodeFields, getBytes_putU64_of_disjoint,
      getBytes_putU64_self]) (by decide)]
  rw [getU64_encode 96 sb.allocMapBlock (by
    simp (disch := decide) only [encodeFields, getBytes_putU64_of_disjoint,
      getBytes_putU64_self]) (by decide)]
  rw [getU64_encode 104 sb.snapshotTableBlock (by
    simp (disch := decide) only [encodeFields, getBytes_putU64_self]) (by decide)]
  rfl

theorem getBytes_encode_magic (sb : SuperblockV3) (key : MacKey) :
    getBytes (sb.encode keyedHash key) 0 8 = some magic := by
  rw [getBytes_encode (by decide)]
  have across : ∀ block, getBytes (putBytes block 40 sb.merkleRoot.toList) 0 8 =
      getBytes block 0 8 := fun block => getBytes_putBytes_of_disjoint (.inl (by decide))
  simp (disch := decide) only [encodeFields, getBytes_putU64_of_disjoint, across,
    getBytes_putU32_of_disjoint]
  exact getBytes_putBytes_self _ (by decide)

theorem getU32_encode_version (sb : SuperblockV3) (key : MacKey) :
    getU32 (sb.encode keyedHash key) 8 = some version := by
  rw [getU32, getBytes_encode (by decide)]
  have across : ∀ block, getBytes (putBytes block 40 sb.merkleRoot.toList) 8 4 =
      getBytes block 8 4 := fun block => getBytes_putBytes_of_disjoint (.inl (by decide))
  simp (disch := decide) only [encodeFields, getBytes_putU64_of_disjoint, across,
    getBytes_putU32_of_disjoint]
  have room : 8 + (toLeBytes 4 version).length ≤ blockSize := by decide
  have put := getBytes_putBytes_self (putBytes zeroBlock 0 magic) room
  rw [length_toLeBytes] at put
  rw [putU32, put, map_some, leValue_toLeBytes (by decide)]

@[simp] theorem decode_encode (sb : SuperblockV3) (key : MacKey) :
    decode keyedHash (sb.encode keyedHash key) key = .ok sb := by
  rw [decode, if_neg (not_not.mpr (getBytes_encode_magic sb key)),
    if_neg (not_not.mpr (getU32_encode_version sb key)),
    if_neg (not_not.mpr (getBytes_encode_mac sb key)), decodeFields_encode]

end SuperblockV3

end NexaCore.Fs.V3
