import NexaCore.Fs.Allocator
import NexaCore.Misc.BitCount

/-!
# The block bitmap

Every operation changes at most one bit, keeps `free_count` at the number of clear bits
and leaves the bits past `total_blocks` set. `allocate` fails exactly if `free_count` is
zero and else takes the lowest clear bit.
-/

namespace NexaCore.Fs

open Misc List Nat Function Option Prod

variable {bit k : Nat}

theorem bitOf_withBit (byte : UInt8) (below : k < 8) :
    bitOf (withBit byte bit) k = if k = bit then true else bitOf byte k := by
  by_cases same : k = bit
  · subst same
    simp [bitOf, withBit, below]
  · simp [bitOf, withBit, same, BitVec.getLsbD_twoPow, Ne.symm same]

theorem bitOf_withoutBit (byte : UInt8) (below : k < 8) :
    bitOf (withoutBit byte bit) k = if k = bit then false else bitOf byte k := by
  by_cases same : k = bit
  · subst same
    simp [bitOf, withoutBit]
  · simp [bitOf, withoutBit, same, below]

theorem eq_full {byte : UInt8} (set : ∀ k, k < 8 → bitOf byte k = true) : byte = 0xff := by
  apply UInt8.toBitVec_inj.mp
  apply BitVec.eq_of_getLsbD_eq
  intro k below
  rw [show byte.toBitVec.getLsbD k = true from set k below]
  revert k
  decide

theorem bitOf_full (below : k < 8) : bitOf 0xff k = true := by
  revert k
  decide

namespace BlockBitmap

variable {b b' : BlockBitmap} {n : Nat}

/-- The bit of block `i + 1`. Bits past the end of the map count as set. -/
def used (b : BlockBitmap) (i : Nat) : Bool := bitOf (b.bits.getD (i / 8) 0xff) (i % 8)

variable {i : Nat}

theorem byte_lt (below : i < b.totalBlocks) : i / 8 < b.bits.length := by
  rw [b.sized]
  omega

theorem used_eq (below : i < b.totalBlocks) : b.used i = bitOf (b.byte (i / 8)) (i % 8) := by
  have inMap := byte_lt below
  simp [used, byte, inMap]

variable {value : Bool}

/-- Storing a byte that differs in one bit changes that bit of the map. -/
theorem used_setByte {byte : UInt8} (below : i < b.totalBlocks)
    (bits : ∀ k, k < 8 → bitOf byte k = if k = i % 8 then value else bitOf (b.byte (i / 8)) k) :
    (b.setByte (i / 8) byte).used = Function.update b.used i value := by
  funext j
  have inMap : i / 8 < b.bits.length := byte_lt below
  have place : j % 8 < 8 := mod_lt _ (by decide)
  by_cases same : i / 8 = j / 8
  · have index : j = i ↔ j % 8 = i % 8 := by omega
    have stored : (b.setByte (i / 8) byte).bits.getD (j / 8) 0xff = byte := by
      simp [setByte, ← same, inMap]
    rw [used, stored, bits _ place, update_apply]
    simp only [index, used, BlockBitmap.byte, same]
    rw [same] at inMap
    simp [inMap]
  · have other : j ≠ i := by
      rintro rfl
      exact same rfl
    rw [update_of_ne other, used, used]
    simp [setByte, same]

/-- The bits past `total_blocks` are set and `free_count` is the number of clear bits. -/
structure Wf (b : BlockBitmap) : Prop where
  sealed : ∀ i, b.totalBlocks ≤ i → b.used i = true
  counted : b.freeCount = clearCount b.used b.totalBlocks

/-- The map after the bit of block `n` was turned to `value`. -/
structure Turned (b b' : BlockBitmap) (n : Nat) (value : Bool) : Prop where
  positive : 0 < n
  inMap : n ≤ b.totalBlocks
  before : b.used (n - 1) = !value
  total : b'.totalBlocks = b.totalBlocks
  bits : b'.used = Function.update b.used (n - 1) value
  count : b'.freeCount = if value then b.freeCount - 1 else b.freeCount + 1

theorem Turned.wf (turned : b.Turned b' n value) (wf : b.Wf) : b'.Wf := by
  obtain ⟨positive, inMap, before, total, bits, count⟩ := turned
  have below : n - 1 < b.totalBlocks := by omega
  constructor
  · intro k beyond
    rw [total] at beyond
    rw [bits, update_of_ne (by omega)]
    exact wf.sealed k beyond
  · rw [total, bits, count, wf.counted]
    cases value with
    | true =>
      have taken := clearCount_set below before
      rw [if_pos rfl]
      omega
    | false => exact (clearCount_clear below before).symm

theorem isAllocated_iff :
    b.isAllocated n = true ↔ 0 < n ∧ n ≤ b.totalBlocks ∧ b.used (n - 1) = true := by
  unfold isAllocated
  by_cases outside : n = 0 ∨ n > b.totalBlocks
  · rw [if_pos outside]
    simp only [Bool.false_eq_true, false_iff]
    omega
  · have inMap : n - 1 < b.totalBlocks := by omega
    rw [if_neg outside, used_eq inMap]
    exact ⟨fun set => ⟨by omega, by omega, set⟩, fun h => h.2.2⟩

theorem Turned.isAllocated (turned : b.Turned b' n value) (m : Nat) :
    b'.isAllocated m = if m = n then value else b.isAllocated m := by
  obtain ⟨positive, inMap, -, total, bits, -⟩ := turned
  rw [Bool.eq_iff_iff, isAllocated_iff, total, bits]
  by_cases same : m = n
  · subst same
    simp [positive, inMap]
  · rw [if_neg same, isAllocated_iff, update_apply]
    refine and_congr_right fun above => ?_
    rw [if_neg (by omega)]

/-! ## Allocation -/

variable {k : Nat}

theorem clearIn_eq_none : b.clearIn k = none ↔ b.byte k = 0xff := by
  unfold clearIn
  by_cases full : b.byte k = 0xff
  · simp [full]
  · rw [if_neg full, map_eq_none_iff, find?_eq_none]
    constructor
    · intro set
      apply eq_full
      intro bit below
      simpa using set bit (mem_range.mpr below)
    · exact fun impossible => absurd impossible full

theorem clearIn_eq_some {byteIdx bit : Nat} (found : b.clearIn k = some (byteIdx, bit)) :
    byteIdx = k ∧ bit < 8 ∧ bitOf (b.byte k) bit = false ∧
      ∀ j, j < bit → bitOf (b.byte k) j = true := by
  unfold clearIn at found
  split at found
  · cases found
  · obtain ⟨bit, first, same⟩ := map_eq_some_iff.mp found
    cases same
    obtain ⟨clear, mem, earlier⟩ := find?_range_eq_some.mp first
    refine ⟨rfl, mem_range.mp mem, by simpa using clear, fun j before => ?_⟩
    simpa using earlier j before

theorem findSome_range {α : Type} {f : Nat → Option α} {y : α} :
    ∀ {m : Nat}, (range m).findSome? f = some y →
      ∃ k, k < m ∧ f k = some y ∧ ∀ j, j < k → f j = none
  | 0, found => by simp at found
  | m + 1, found => by
    rw [range_succ, findSome?_append] at found
    cases earlier : (range m).findSome? f with
    | some x =>
      rw [earlier] at found
      cases found
      obtain ⟨k, below, here, before⟩ := findSome_range earlier
      exact ⟨k, lt_succ_of_lt below, here, before⟩
    | none =>
      rw [earlier] at found
      refine ⟨m, lt_succ_self m, by simpa using found, fun j before => ?_⟩
      exact findSome?_eq_none_iff.mp earlier j (mem_range.mpr before)

theorem allocate_eq_some (allocated : b.allocate = some (n, b')) :
    b.Turned b' n true ∧ FirstClear b.used (n - 1) ∧ 0 < b.freeCount := by
  unfold allocate at allocated
  split at allocated
  · cases allocated
  · rename_i some
    split at allocated
    · cases allocated
    · rename_i byteIdx bit found
      simp only at allocated
      split at allocated
      · cases allocated
      · rename_i inRange
        cases allocated
        obtain ⟨k, below, here, before⟩ := findSome_range found
        obtain ⟨rfl, place, clear, lower⟩ := clearIn_eq_some here
        have word : (byteIdx * 8 + bit) / 8 = byteIdx := by omega
        have position : (byteIdx * 8 + bit) % 8 = bit := by omega
        have inMap : byteIdx * 8 + bit < b.totalBlocks := not_le.mp inRange
        have first : b.used (byteIdx * 8 + bit) = false := by
          rw [used_eq inMap, word, position, clear]
        refine ⟨⟨succ_pos _, inMap, first, rfl, ?_, rfl⟩, ⟨first, ?_⟩, pos_of_ne_zero some⟩
        · have stored : (b.setByte ((byteIdx * 8 + bit) / 8) (withBit (b.byte byteIdx) bit)).used =
              Function.update b.used (byteIdx * 8 + bit) true := by
            apply used_setByte inMap
            intro k below
            rw [word, position]
            exact bitOf_withBit _ below
          rw [word] at stored
          exact stored
        · intro j earlier
          rw [used_eq (by omega)]
          by_cases same : j / 8 = byteIdx
          · rw [same]
            exact lower _ (by omega)
          · rw [clearIn_eq_none.mp (before (j / 8) (by omega))]
            exact bitOf_full (mod_lt _ (by decide))

theorem Wf.allocate (wf : b.Wf) (allocated : b.allocate = some (n, b')) : b'.Wf :=
  (allocate_eq_some allocated).1.wf wf

theorem Wf.allocate_eq_none (wf : b.Wf) : b.allocate = none ↔ b.freeCount = 0 := by
  constructor
  · intro failed
    by_contra some
    obtain ⟨i, below, clear⟩ : ∃ i, i < b.totalBlocks ∧ b.used i = false := by
      rw [wf.counted] at some
      simpa [clearCount, countP_pos_iff] using pos_of_ne_zero some
    unfold BlockBitmap.allocate at failed
    rw [if_neg some] at failed
    split at failed
    · -- No byte has a clear bit, against the clear bit `i`.
      rename_i none
      have full := findSome?_eq_none_iff.mp none (i / 8) (mem_range.mpr (byte_lt below))
      rw [used_eq below, clearIn_eq_none.mp full, bitOf_full (mod_lt _ (by decide))] at clear
      cases clear
    · -- The first clear bit is not past the end, where all bits are set.
      rename_i byteIdx bit found
      simp only at failed
      split at failed
      · rename_i beyond
        obtain ⟨k, inMap, here, -⟩ := findSome_range found
        obtain ⟨rfl, place, open', -⟩ := clearIn_eq_some here
        have set := wf.sealed _ beyond
        have word : (byteIdx * 8 + bit) / 8 = byteIdx := by omega
        have position : (byteIdx * 8 + bit) % 8 = bit := by omega
        rw [used, word, position] at set
        simp only [byte, getD_eq_getElem?_getD, getElem?_eq_getElem inMap, getD_some] at set open'
        rw [set] at open'
        cases open'
      · cases failed
  · intro empty
    rw [BlockBitmap.allocate, if_pos empty]

/-! ## Block numbers -/

theorem allocate_isAllocated (allocated : b.allocate = some (n, b')) :
    0 < n ∧ n ≤ b.totalBlocks ∧ b.isAllocated n = false ∧
      ∀ m, b'.isAllocated m = if m = n then true else b.isAllocated m := by
  obtain ⟨turned, -⟩ := allocate_eq_some allocated
  refine ⟨turned.positive, turned.inMap, ?_, turned.isAllocated⟩
  rw [Bool.eq_false_iff, ne_eq, isAllocated_iff, turned.before]
  simp

/-- An allocation whose result is not looked at: with the blocks up to `k` allocated before,
those up to `k + 1` are allocated after it. -/
theorem Wf.allocate_getD (wf : b.Wf)
    (lower : ∀ m, 0 < m → m ≤ k → m ≤ b.totalBlocks → b.isAllocated m = true) :
    ((b.allocate.map snd).getD b).Wf ∧
      ((b.allocate.map snd).getD b).totalBlocks = b.totalBlocks ∧
      ∀ m, 0 < m → m ≤ k + 1 → m ≤ b.totalBlocks →
        ((b.allocate.map snd).getD b).isAllocated m = true := by
  cases allocated : b.allocate with
  | none =>
    refine ⟨wf, rfl, fun m positive _ inMap => isAllocated_iff.mpr ⟨positive, inMap, ?_⟩⟩
    have full : clearCount b.used b.totalBlocks = 0 :=
      wf.counted.symm.trans (wf.allocate_eq_none.mp allocated)
    exact clearCount_eq_zero.mp full (m - 1) (by omega)
  | some taken =>
    obtain ⟨n, b'⟩ := taken
    obtain ⟨turned, first, -⟩ := allocate_eq_some allocated
    obtain ⟨above, below, clear, bits⟩ := allocate_isAllocated allocated
    refine ⟨wf.allocate allocated, turned.total, fun m positive upper inMap => ?_⟩
    have set : b'.isAllocated m = true := by
      rw [bits]
      split
      · rfl
      · rename_i other
        by_cases small : m ≤ k
        · exact lower m positive small inMap
        · have beyond : k < n := by
            by_contra within
            rw [lower n above (by omega) below] at clear
            cases clear
          exact isAllocated_iff.mpr ⟨positive, inMap, first.lowest (m - 1) (by omega)⟩
    exact set

theorem free_cases (b : BlockBitmap) (n : Nat) :
    (b.isAllocated n = false ∧ b.free n = b) ∨ b.Turned (b.free n) n false := by
  unfold free isAllocated
  by_cases outside : n = 0 ∨ n > b.totalBlocks
  · rw [if_pos outside, if_pos outside]
    exact .inl ⟨rfl, rfl⟩
  · rw [if_neg outside, if_neg outside]
    have below : n - 1 < b.totalBlocks := by omega
    simp only
    by_cases set : bitOf (b.byte ((n - 1) / 8)) ((n - 1) % 8) = true
    · rw [if_pos set]
      refine .inr ⟨by omega, by omega, (used_eq below).trans set, rfl, ?_, rfl⟩
      exact used_setByte below fun k below => bitOf_withoutBit _ below
    · rw [if_neg set]
      exact .inl ⟨Bool.eq_false_of_not_eq_true set, rfl⟩

theorem totalBlocks_free (b : BlockBitmap) (n : Nat) : (b.free n).totalBlocks = b.totalBlocks := by
  rcases free_cases b n with ⟨-, same⟩ | turned
  · rw [same]
  · exact turned.total

theorem isAllocated_free (b : BlockBitmap) (n m : Nat) :
    (b.free n).isAllocated m = if m = n then false else b.isAllocated m := by
  rcases free_cases b n with ⟨clear, same⟩ | turned
  · rw [same]
    split
    · rename_i equal
      rw [equal, clear]
    · rfl
  · exact turned.isAllocated m

theorem Wf.free (wf : b.Wf) (n : Nat) : (b.free n).Wf := by
  rcases free_cases b n with ⟨-, same⟩ | turned
  · rw [same]
    exact wf
  · exact turned.wf wf

theorem markAllocated_cases (b : BlockBitmap) (n : Nat) :
    (b.markAllocated n = b ∧ (0 < n → n ≤ b.totalBlocks → b.isAllocated n = true)) ∨
    b.Turned (b.markAllocated n) n true := by
  unfold markAllocated
  by_cases outside : n = 0 ∨ n > b.totalBlocks
  · rw [if_pos outside]
    exact .inl ⟨rfl, fun positive inMap => by omega⟩
  · rw [if_neg outside]
    have below : n - 1 < b.totalBlocks := by omega
    simp only
    by_cases set : bitOf (b.byte ((n - 1) / 8)) ((n - 1) % 8) = true
    · rw [if_pos set]
      exact .inl ⟨rfl, fun positive inMap =>
        isAllocated_iff.mpr ⟨positive, inMap, (used_eq below).trans set⟩⟩
    · rw [if_neg set]
      have clear := (used_eq below).trans (Bool.eq_false_of_not_eq_true set)
      refine .inr ⟨by omega, by omega, clear, rfl, ?_, rfl⟩
      exact used_setByte below fun k below => bitOf_withBit _ below

theorem Wf.markAllocated (wf : b.Wf) (n : Nat) : (b.markAllocated n).Wf := by
  rcases markAllocated_cases b n with ⟨same, -⟩ | turned
  · rw [same]
    exact wf
  · exact turned.wf wf

theorem totalBlocks_markAllocated (b : BlockBitmap) (n : Nat) :
    (b.markAllocated n).totalBlocks = b.totalBlocks := by
  rcases markAllocated_cases b n with ⟨same, -⟩ | turned
  · rw [same]
  · exact turned.total

theorem isAllocated_markAllocated (b : BlockBitmap) (n m : Nat) :
    (b.markAllocated n).isAllocated m =
      if m = n ∧ 0 < n ∧ n ≤ b.totalBlocks then true else b.isAllocated m := by
  rcases markAllocated_cases b n with ⟨same, set⟩ | turned
  · rw [same]
    split
    · rename_i equal
      rw [equal.1]
      exact set equal.2.1 equal.2.2
    · rfl
  · rw [turned.isAllocated]
    simp [turned.positive, turned.inMap]

/-! ## The fresh map -/

theorem bitOf_seal {usedBits : Nat} (inByte : usedBits < 8) (below : k < 8) :
    bitOf ⟨~~~(BitVec.twoPow 8 usedBits - 1)⟩ k = decide (usedBits ≤ k) := by
  have bits : ∀ usedBits, usedBits < 8 → ∀ k, k < 8 →
      bitOf ⟨~~~(BitVec.twoPow 8 usedBits - 1)⟩ k = decide (usedBits ≤ k) := by decide
  exact bits usedBits inByte k below

/-- In a fresh map the bits past `total_blocks` are set and the others are clear. -/
theorem bitOf_freshBits (totalBlocks i : Nat) :
    bitOf ((freshBits totalBlocks).getD (i / 8) 0xff) (i % 8) = decide (totalBlocks ≤ i) := by
  have place : i % 8 < 8 := mod_lt _ (by decide)
  by_cases inMap : i / 8 < (totalBlocks + 7) / 8
  · by_cases last : totalBlocks % 8 ≠ 0 ∧ i / 8 = (totalBlocks + 7) / 8 - 1
    · have stored : (freshBits totalBlocks).getD (i / 8) 0xff =
          ⟨~~~(BitVec.twoPow 8 (totalBlocks % 8) - 1)⟩ := by
        simp [freshBits, last.1, ← last.2, inMap]
      rw [stored, bitOf_seal (mod_lt _ (by decide)) place, decide_eq_decide]
      omega
    · have stored : (freshBits totalBlocks).getD (i / 8) 0xff = 0 := by
        unfold freshBits
        by_cases ragged : totalBlocks % 8 ≠ 0
        · have other : (totalBlocks + 7) / 8 - 1 ≠ i / 8 := by omega
          simp [ragged, other, inMap]
        · simp [ragged, inMap]
      have before : i < totalBlocks := by omega
      rw [stored, decide_eq_false (not_le.mpr before)]
      simp [bitOf]
  · have outside : (freshBits totalBlocks).getD (i / 8) 0xff = 0xff := by
      simp [length_freshBits, not_lt.mp inMap]
    rw [outside, bitOf_full place, decide_eq_true (by omega)]

variable {totalBlocks : Nat}

theorem new_eq_some (made : new totalBlocks = some b) :
    b.totalBlocks = totalBlocks ∧ b.freeCount = totalBlocks ∧
      ∀ i, b.used i = decide (totalBlocks ≤ i) := by
  obtain ⟨-, -, made⟩ := bind_eq_some_iff.mp made
  cases made
  exact ⟨rfl, rfl, bitOf_freshBits totalBlocks⟩

theorem wf_new (made : new totalBlocks = some b) : b.Wf := by
  obtain ⟨total, count, bits⟩ := new_eq_some made
  constructor
  · intro i beyond
    rw [total] at beyond
    rw [bits i, decide_eq_true beyond]
  · have clear : b.used = fun i => decide (totalBlocks ≤ i) := funext bits
    rw [count, total, clear, clearCount, countP_eq_length.mpr, length_range]
    intro i mem
    simpa using mem_range.mp mem

end BlockBitmap

end NexaCore.Fs
