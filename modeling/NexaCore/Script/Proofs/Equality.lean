import NexaCore.Script.Value
import Mathlib.Tactic

/-!
# Equality of ncScript values

`values_equal` has no case for structs: a value with a struct in it is equal to nothing, not
even to itself. On all other values without floats it is equality.
-/

namespace NexaCore.Script

open Value List

variable {φ : Type}

theorem Value.FloatFree.part {value part : Value φ} (free : value.FloatFree)
    (below : ∀ x, part.HasPart (.float x) → value.HasPart (.float x)) : part.FloatFree :=
  fun x has => free x (below x has)

@[simp] theorem structFree_unit : (unit : Value φ).StructFree := by rintro _ _ ⟨⟩

@[simp] theorem structFree_bool (b : Bool) : (bool b : Value φ).StructFree := by rintro _ _ ⟨⟩

@[simp] theorem structFree_int (n : Int64) : (int n : Value φ).StructFree := by rintro _ _ ⟨⟩

@[simp] theorem structFree_str (s : String) : (str s : Value φ).StructFree := by rintro _ _ ⟨⟩

theorem structFree_list {items : List (Value φ)} :
    (list items).StructFree ↔ ∀ item ∈ items, item.StructFree := by
  constructor
  · exact fun free item mem name fields has => free name fields (.item mem has)
  · intro free name fields has
    cases has with
    | item mem has => exact free _ mem name fields has

theorem structFree_enum {enumName variant : String} {payload : List (Value φ)} :
    (enum enumName variant payload).StructFree ↔ ∀ item ∈ payload, item.StructFree := by
  constructor
  · exact fun free item mem name fields has => free name fields (.payload mem has)
  · intro free name fields has
    cases has with
    | payload mem has => exact free _ mem name fields has

variable [BEq φ]

mutual

theorem valuesEqual_iff (a b : Value φ) (floatFree : a.FloatFree) :
    valuesEqual a b = true ↔ a = b ∧ a.StructFree := by
  cases a with
  | unit | bool | int | str => cases b <;> simp [valuesEqual]
  | float x => exact absurd (.self _) (floatFree x)
  | list items =>
    have inner := fun items' => itemsEqual_iff items items' fun item mem =>
      floatFree.part fun _ => .item mem
    cases b <;> simp [valuesEqual, structFree_list, inner]
  | struct name fields =>
    have held : ¬(struct name fields).StructFree := fun free => free name fields (.self _)
    cases b <;> simp [valuesEqual, held]
  | enum enumName variant payload =>
    have inner := fun payload' => itemsEqual_iff payload payload' fun item mem =>
      floatFree.part fun _ => .payload mem
    cases b <;> simp [valuesEqual, structFree_enum, inner, and_assoc]

theorem itemsEqual_iff (as bs : List (Value φ)) (floatFree : ∀ a ∈ as, a.FloatFree) :
    itemsEqual as bs = true ↔ as = bs ∧ ∀ a ∈ as, a.StructFree := by
  cases as with
  | nil => cases bs <;> simp [itemsEqual]
  | cons a as =>
    cases bs with
    | nil => simp [itemsEqual]
    | cons b bs =>
      rw [forall_mem_cons] at floatFree
      rw [itemsEqual, Bool.and_eq_true, valuesEqual_iff a b floatFree.1,
        itemsEqual_iff as bs floatFree.2, cons.injEq, forall_mem_cons]
      tauto

end

/-- On values without floats the comparison is equality of values, and reflexive, exactly where
no struct is compared with itself; it is symmetric and transitive everywhere. -/
theorem values_equal_structural_iff (a b c : Value φ) (floatFree : a.FloatFree)
    (floatFree' : b.FloatFree) :
    ((valuesEqual a b = true ↔ a = b) ↔ (a = b → a.StructFree)) ∧
      (valuesEqual a a = true ↔ a.StructFree) ∧
      (valuesEqual a b = true → valuesEqual b a = true) ∧
      (valuesEqual a b = true → valuesEqual b c = true → valuesEqual a c = true) := by
  have first (b : Value φ) := valuesEqual_iff a b floatFree
  have second (c : Value φ) := valuesEqual_iff b c floatFree'
  refine ⟨?_, ?_, ?_, ?_⟩
  · rw [first]
    tauto
  · simp [first]
  · rw [first, second]
    rintro ⟨rfl, free⟩
    exact ⟨rfl, free⟩
  · rw [first, second, first]
    rintro ⟨rfl, free⟩ equal
    exact equal

theorem values_equal_structural_iff_list :
    (list [int 1] : Value Nat).FloatFree ∧
    valuesEqual (list [int 1] : Value Nat) (list [int 1]) := by
  have floatFree : (list [int 1] : Value Nat).FloatFree := by
    rintro x (_ | ⟨mem, has⟩)
    rw [mem_singleton.mp mem] at has
    cases has
  have structFree : (list [int 1] : Value Nat).StructFree := by
    rw [structFree_list]
    simp
  exact ⟨floatFree, (values_equal_structural_iff _ (list [int 1]) unit floatFree floatFree).2.1.mpr
    structFree⟩

/-- An empty struct is not equal to itself. -/
theorem values_equal_not_reflexive :
    valuesEqual (struct "Point" [] : Value Nat) (struct "Point" []) = false := by
  simp [valuesEqual]

end NexaCore.Script
