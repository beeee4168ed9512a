/-!
# ncScript values

The values of `nexacore-script/src/interp.rs` and their equality. Lists and structs are shared
and mutable in the source; a value without cycles is the tree that it stands for. The memory
guards have no part in what a value is and are left out.
-/

namespace NexaCore.Script

/-- `Value` (`interp.rs:62-96`) over a type of floats. The fields of a struct are the entries of
a `BTreeMap` in their order. -/
inductive Value (φ : Type) where
  | unit
  | bool (value : Bool)
  | int (value : Int64)
  | float (value : φ)
  | str (text : String)
  | list (items : List (Value φ))
  | struct (name : String) (fields : List (String × Value φ))
  | enum (enumName variant : String) (payload : List (Value φ))

variable {φ : Type}

mutual

/-- `values_equal` (`interp.rs:175-213`). -/
def valuesEqual [BEq φ] : Value φ → Value φ → Bool
  | .unit, .unit => true
  | .bool x, .bool y => x == y
  | .int x, .int y => x == y
  | .float x, .float y => x == y
  | .str x, .str y => x == y
  | .list x, .list y => itemsEqual x y
  | .enum en1 v1 p1, .enum en2 v2 p2 => en1 == en2 && (v1 == v2 && itemsEqual p1 p2)
  | _, _ => false

/-- The lengths agree, and the items in pairs (`interp.rs:189` and `interp.rs:207-208`). -/
def itemsEqual [BEq φ] : List (Value φ) → List (Value φ) → Bool
  | [], [] => true
  | a :: as, b :: bs => valuesEqual a b && itemsEqual as bs
  | _, _ => false

end

namespace Value

/-- The parts of a value, at any depth. -/
inductive HasPart : Value φ → Value φ → Prop
  | self (value : Value φ) : HasPart value value
  | item {items : List (Value φ)} {item part : Value φ} :
      item ∈ items → HasPart item part → HasPart (.list items) part
  | field {name : String} {fields : List (String × Value φ)} {field : String × Value φ}
      {part : Value φ} : field ∈ fields → HasPart field.2 part → HasPart (.struct name fields) part
  | payload {enumName variant : String} {payload : List (Value φ)} {item part : Value φ} :
      item ∈ payload → HasPart item part → HasPart (.enum enumName variant payload) part

/-- No part of the value is a float. -/
def FloatFree (value : Value φ) : Prop := ∀ x, ¬value.HasPart (.float x)

/-- No part of the value is a struct. -/
def StructFree (value : Value φ) : Prop := ∀ name fields, ¬value.HasPart (.struct name fields)

end Value

end NexaCore.Script
