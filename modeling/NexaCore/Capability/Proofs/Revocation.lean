import NexaCore.Capability.Token

/-!
# The two tiers of a revocation list agree

Every index that the Bloom filter computes is inside its bit array, and the bits of a
revoked token stay set. So the filter never hides a token from the authoritative set.
-/

namespace NexaCore.Capability

open Misc List Option

namespace MicroBloom

variable {bits : List UInt8}

def test (bits : List UInt8) (idx : Nat) : Bool :=
  (bits.getD (idx / 8) 0).toBitVec.getLsbD (idx % 8)

theorem getLsbD_setBit (byte : UInt8) {i j : Nat} (low : i < 8) (below : j < 8) :
    (byte ||| 1 <<< UInt8.ofNat i).toBitVec.getLsbD j =
      (byte.toBitVec.getLsbD j || decide (i = j)) := by
  interval_cases i <;> interval_cases j <;> simp

theorem setBit_spec {idx : Nat} (inside : idx / 8 < bits.length) :
    ∃ bits', setBit bits idx = some bits' ∧ bits'.length = bits.length ∧
      ∀ other, test bits' other = (test bits other || decide (idx = other)) := by
  refine ⟨_, by rw [setBit, getElem?_eq_getElem inside]; rfl, length_set, fun other => ?_⟩
  have low := Nat.mod_lt idx (show 0 < 8 by decide)
  have low' := Nat.mod_lt other (show 0 < 8 by decide)
  simp only [test, getD_eq_getElem?_getD]
  by_cases byte : idx / 8 = other / 8
  · have bit : idx % 8 = other % 8 ↔ idx = other := by omega
    rw [← byte, getElem?_set_self inside, getElem?_eq_getElem inside]
    simp only [getD_some, getLsbD_setBit _ low low', bit]
  · have apart : idx ≠ other := fun same => byte (by rw [same])
    simp [getElem?_set_ne byte, apart]

theorem foldlM_setBit (idxs : List Nat) (bits : List UInt8)
    (inside : ∀ idx ∈ idxs, idx / 8 < bits.length) :
    ∃ bits', idxs.foldlM setBit bits = some bits' ∧ bits'.length = bits.length ∧
      ∀ other, test bits' other = (test bits other || decide (other ∈ idxs)) := by
  induction idxs generalizing bits with
  | nil => exact ⟨bits, rfl, rfl, by simp⟩
  | cons idx rest ih =>
    obtain ⟨next, stored, length, isSet⟩ := setBit_spec (inside idx (.head _))
    obtain ⟨bits', looped, length', isSet'⟩ := ih next fun other mem =>
      length ▸ inside other (.tail _ mem)
    refine ⟨bits', by rw [foldlM_cons, stored]; exact looped, length'.trans length, fun other => ?_⟩
    rw [isSet', isSet, Bool.or_assoc, ← Bool.decide_or]
    simp [eq_comm]

theorem mightContain_eq {bloom : MicroBloom} {crypto : Crypto} {item : List UInt8}
    (inside : ∀ idx ∈ bloom.indices crypto item, idx / 8 < bloom.bits.length) :
    bloom.mightContain crypto item = some ((bloom.indices crypto item).all (test bloom.bits)) := by
  generalize indices : bloom.indices crypto item = idxs at inside
  have loop : ∀ start : Bool, idxs.foldlM (fun found idx => if !found then some false
      else bloom.bits[idx / 8]?.map fun byte => byte.toBitVec.getLsbD (idx % 8)) start =
        some (start && idxs.all (test bloom.bits)) := by
    clear indices
    induction idxs with
    | nil => simp
    | cons idx rest ih =>
      have here := getElem?_eq_getElem (inside idx (.head _))
      have below := ih fun other mem => inside other (mem_cons_of_mem idx mem)
      intro start
      rw [foldlM_cons]
      cases start with
      | false => exact below false
      | true => simpa [here, test, getD_eq_getElem?_getD] using below (test bloom.bits idx)
  rw [mightContain, indices, loop]
  rfl

end MicroBloom

namespace RevocationList

open MicroBloom

variable {crypto : Crypto} {list : RevocationList}

/-- The array has the size that the indices are reduced to, and the bits of every revoked token
are set. -/
structure Inv (crypto : Crypto) (list : RevocationList) : Prop where
  positive : 0 < list.bloom.numBits
  size : list.bloom.numBits = list.bloom.bits.length * 8
  marked : ∀ id ∈ list.full, ∀ idx ∈ list.bloom.indices crypto id.uuid.toList,
    test list.bloom.bits idx = true

theorem Inv.inside (inv : list.Inv crypto) (item : List UInt8) :
    ∀ idx ∈ list.bloom.indices crypto item,
      idx < list.bloom.numBits ∧ idx / 8 < list.bloom.bits.length := by
  intro idx mem
  obtain ⟨i, -, rfl⟩ := mem_map.mp mem
  refine ⟨Nat.mod_lt _ inv.positive, Nat.div_lt_of_lt_mul ?_⟩
  rw [Nat.mul_comm 8, ← inv.size]
  exact Nat.mod_lt _ inv.positive

theorem Inv.foldlM_revoke (inv : list.Inv crypto) (ids : List CapabilityId) :
    ∃ list', ids.foldlM (revoke crypto) list = some list' ∧ list'.Inv crypto ∧
      ∀ id, id ∈ list'.full ↔ id ∈ list.full ∨ id ∈ ids := by
  induction ids generalizing list with
  | nil => exact ⟨list, rfl, inv, by simp⟩
  | cons first rest ih =>
    obtain ⟨bits, looped, length, isSet⟩ := foldlM_setBit _ list.bloom.bits
      fun idx mem => (inv.inside first.uuid.toList idx mem).2
    have inv' : Inv crypto ⟨{ list.bloom with bits }, list.full.insert first⟩ := by
      refine ⟨inv.positive, by rw [inv.size, ← length], fun id mem idx computed => ?_⟩
      rw [isSet, Bool.or_eq_true, decide_eq_true_eq]
      rcases List.mem_insert_iff.mp mem with rfl | old
      · exact .inr computed
      · exact .inl (inv.marked id old idx computed)
    obtain ⟨list', rest', final, full⟩ := ih inv'
    refine ⟨list', ?_, final, fun id => ?_⟩
    · rw [foldlM_cons, revoke, MicroBloom.insert, looped]
      exact rest'
    · rw [full, List.mem_insert_iff, mem_cons]
      tauto

/-- The largest capacity whose filter has fewer than `2 ^ 64` bits. -/
def maxCapacity : Nat := (2 ^ 64 - 8) / 10

/-- Lists and sets of revoked tokens agree at every capacity that the filter can have, and beyond
it no list is made. -/
theorem contains_iff_revoked (crypto : Crypto) (expected : Nat) :
    if expected ≤ maxCapacity then
      ∀ ids : List CapabilityId, ∃ list : RevocationList,
        (withExpectedCapacity expected).bind (ids.foldlM (revoke crypto)) = some list ∧
        (∀ id, list.contains crypto id = some (decide (id ∈ ids))) ∧
        ∀ item, ∀ idx ∈ list.bloom.indices crypto item,
          idx < list.bloom.numBits ∧ idx / 8 < list.bloom.bits.length
    else withExpectedCapacity expected = none := by
  obtain ⟨numBits, padded⟩ : ∃ numBits,
      max expected 8 * 10 + (8 - max expected 8 * 10 % 8) % 8 = numBits := ⟨_, rfl⟩
  by_cases fits : expected ≤ maxCapacity
  · have small : numBits < 2 ^ 64 := by
      unfold maxCapacity at fits
      omega
    have made : withExpectedCapacity expected =
        some ⟨⟨replicate (numBits / 8) 0, numBits, 7⟩, []⟩ := by
      rw [withExpectedCapacity, MicroBloom.new, mulU64_of_lt (by omega), bind_eq_bind]
      simp only [bind_eq_bind, bind_some, addU64_of_lt (padded ▸ small), padded]
      rfl
    have empty : Inv crypto ⟨⟨replicate (numBits / 8) 0, numBits, 7⟩, []⟩ :=
      ⟨by dsimp only; omega, by rw [length_replicate]; dsimp only; omega, by simp⟩
    rw [if_pos fits, made]
    intro ids
    obtain ⟨list, revoked, inv, full⟩ := empty.foldlM_revoke ids
    refine ⟨list, revoked, fun id => ?_, inv.inside⟩
    rw [RevocationList.contains, mightContain_eq fun idx mem => (inv.inside _ idx mem).2]
    by_cases mem : id ∈ ids
    · have marked := inv.marked id ((full id).mpr (.inr mem))
      simp [mem, full, List.all_eq_true.mpr marked]
    · simp [mem, full]
  · have large : 2 ^ 64 ≤ numBits := by
      unfold maxCapacity at fits
      omega
    rw [if_neg fits, withExpectedCapacity, MicroBloom.new, mulU64]
    split
    · simp only [bind_eq_bind, bind_some, addU64_of_ge (padded ▸ large), bind_none]
    · rfl

/-- The size of a filter for half of all `usize` values overflows. -/
theorem capacity_overflows : withExpectedCapacity (2 ^ 63) = none := by decide +kernel

end RevocationList

end NexaCore.Capability
