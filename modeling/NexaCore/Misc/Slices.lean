import Mathlib.Data.List.Basic

/-!
# Slices of lists

The `width` elements of a list from an offset, as a reader of a record with fixed offsets takes
them. In a concatenation of fields each slice that lies in one field is a slice of that field.
-/

namespace NexaCore.Misc

open List

universe u

variable {α : Type u}

/-- The elements `offset, …, offset + width - 1`, as far as the list has them. -/
def slice (offset width : Nat) (xs : List α) : List α := (xs.drop offset).take width

variable {xs ys : List α} {offset width : Nat}

@[simp]
theorem slice_append_right (after : xs.length ≤ offset) :
    slice offset width (xs ++ ys) = slice (offset - xs.length) width ys := by
  rw [slice, slice, drop_append, drop_of_length_le after, nil_append]

theorem slice_append_left (within : offset + width ≤ xs.length) :
    slice offset width (xs ++ ys) = slice offset width xs := by
  rw [slice, slice, drop_append_of_le_length (by omega), take_append_of_le_length]
  rw [length_drop]
  omega

@[simp]
theorem slice_append_field (exact : xs.length = width) : slice 0 width (xs ++ ys) = xs := by
  rw [slice_append_left (by omega), slice, drop_zero, ← exact, take_length]

variable {x : α}

@[simp]
theorem slice_succ_cons :
    slice (offset + 1) width (x :: xs) = slice offset width xs := rfl

@[simp]
theorem slice_one_cons : slice 0 1 (x :: xs) = [x] := rfl

theorem getElem?_slice {i : Nat} (inside : i < width) :
    (slice offset width xs)[i]? = xs[offset + i]? := by
  rw [slice, getElem?_take_of_lt inside, getElem?_drop]

end NexaCore.Misc
