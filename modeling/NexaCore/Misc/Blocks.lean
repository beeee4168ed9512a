import Mathlib.Tactic

/-!
# Buffers made of blocks

A buffer read as a sequence of blocks of one size. Bytes put at the start of a block, no
more of them than the block holds, change this block only.
-/

namespace NexaCore.Misc

open List Nat

variable {α : Type} {size start : Nat} {buffer bytes : List α}

def blockAt (size : Nat) (buffer : List α) (i : Nat) : List α := (buffer.drop (i * size)).take size

/-- The buffer with `bytes` in the place of what it has from `start` on. -/
def overlay (buffer : List α) (start : Nat) (bytes : List α) : List α :=
  buffer.take start ++ bytes ++ buffer.drop (start + bytes.length)

theorem length_overlay (inside : start + bytes.length ≤ buffer.length) :
    (overlay buffer start bytes).length = buffer.length := by
  simp only [overlay, length_append, length_take, length_drop]
  omega

theorem getElem?_overlay (inside : start + bytes.length ≤ buffer.length) (k : Nat) :
    (overlay buffer start bytes)[k]? =
      if start ≤ k ∧ k < start + bytes.length then bytes[k - start]? else buffer[k]? := by
  have front : (buffer.take start).length = start := by
    rw [length_take]
    omega
  unfold overlay
  by_cases before : k < start
  · rw [append_assoc, getElem?_append_left (by omega), getElem?_take_of_lt before,
      if_neg (by omega)]
  · by_cases within : k < start + bytes.length
    · rw [append_assoc, getElem?_append_right (by omega), front,
        getElem?_append_left (by omega), if_pos (by omega)]
    · have index : start + bytes.length + (k - (start + bytes.length)) = k := by omega
      rw [getElem?_append_right (by rw [length_append]; omega), length_append, front,
        getElem?_drop, index, if_neg (by omega)]

theorem getElem?_blockAt (size : Nat) (buffer : List α) (i k : Nat) :
    (blockAt size buffer i)[k]? = if k < size then buffer[i * size + k]? else none := by
  unfold blockAt
  split
  · rename_i below
    rw [getElem?_take_of_lt below, getElem?_drop]
  · rename_i beyond
    exact getElem?_eq_none ((length_take_le _ _).trans (not_lt.mp beyond))

theorem blockAt_overlay {j : Nat} (inBlock : bytes.length ≤ size)
    (inside : (j + 1) * size ≤ buffer.length) (i : Nat) :
    blockAt size (overlay buffer (j * size) bytes) i =
      if i = j then bytes ++ (blockAt size buffer j).drop bytes.length
      else blockAt size buffer i := by
  have next : (j + 1) * size = j * size + size := succ_mul j size
  have fits : j * size + bytes.length ≤ buffer.length := by omega
  apply ext_getElem?
  intro k
  rw [getElem?_blockAt]
  split
  · rename_i below
    rw [getElem?_overlay fits]
    by_cases same : i = j
    · subst same
      rw [if_pos rfl]
      by_cases within : k < bytes.length
      · rw [if_pos (by omega), Nat.add_sub_cancel_left, getElem?_append_left within]
      · have index : bytes.length + (k - bytes.length) = k := by omega
        rw [if_neg (by omega), getElem?_append_right (by omega), getElem?_drop, index,
          getElem?_blockAt, if_pos below]
    · have outside : ¬(j * size ≤ i * size + k ∧ i * size + k < j * size + bytes.length) := by
        rcases lt_or_gt_of_ne same with less | greater
        · have apart : (i + 1) * size ≤ j * size := mul_le_mul_right size less
          rw [succ_mul] at apart
          omega
        · have apart : (j + 1) * size ≤ i * size := mul_le_mul_right size greater
          omega
      rw [if_neg outside, if_neg same, getElem?_blockAt, if_pos below]
  · rename_i beyond
    symm
    apply getElem?_eq_none
    split
    · have room : (blockAt size buffer j).length ≤ size := length_take_le _ _
      rw [length_append, length_drop]
      omega
    · exact (length_take_le _ _).trans (not_lt.mp beyond)

theorem blockAt_replicate {blocks i : Nat} (a : α) (below : i < blocks) :
    blockAt size (List.replicate (blocks * size) a) i = List.replicate size a := by
  have room : (i + 1) * size ≤ blocks * size := mul_le_mul_right size below
  rw [succ_mul] at room
  rw [blockAt, drop_replicate, take_replicate, min_eq_left (by omega)]

end NexaCore.Misc
