import Mathlib

/-!
# Dates

The calendar of the `datetime` module (`nexacore-script/src/interp.rs`). A number is an `Int`, and
an operation on `i64` gives nothing where its result does not fit, which is a panic.
-/

namespace NexaCore.Script

/-- The numbers of an `i64`. -/
def FitsI64 (n : Int) : Prop := -2 ^ 63 ≤ n ∧ n < 2 ^ 63

instance (n : Int) : Decidable (FitsI64 n) := inferInstanceAs (Decidable (_ ∧ _))

/-- The result of an operation on `i64`. -/
def i64 (n : Int) : Option Int := if FitsI64 n then some n else none

/-- `days_of` (`interp.rs:1962-1964`). -/
def daysOf (ts : Int) : Int := ts / 86400

/-- The year of the era and the day of that year, which begins in March (`interp.rs:1984-1986`). -/
def yearOfEra (doe : Int) : Option (Int × Int) := do
  let days ← i64 ((← i64 (doe - doe.tdiv 1460)) + doe.tdiv 36524)
  let yoe := (← i64 (days - doe.tdiv 146096)).tdiv 365
  let before ← i64 ((← i64 ((← i64 (365 * yoe)) + yoe.tdiv 4)) - yoe.tdiv 100)
  return (yoe, ← i64 (doe - before))

/-- The month and the day of the month, from the day of the year (`interp.rs:1987-1989`). -/
def monthAndDay (doy : Int) : Option (Int × Int) := do
  let mp := (← i64 ((← i64 (5 * doy)) + 2)).tdiv 153
  let before := (← i64 ((← i64 (153 * mp)) + 2)).tdiv 5
  let d ← i64 ((← i64 (doy - before)) + 1)
  return (← i64 (if mp < 10 then mp + 3 else mp - 9), d)

/-- `civil_from_days` (`interp.rs:1980-1992`). -/
def civilFromDays (days : Int) : Option (Int × Int × Int) := do
  let z ← i64 (days + 719468)
  let era := (← i64 (if 0 ≤ z then z else z - 146096)).tdiv 146097
  let doe ← i64 (z - (← i64 (era * 146097)))
  let year ← yearOfEra doe
  let y ← i64 (year.1 + (← i64 (era * 400)))
  let date ← monthAndDay year.2
  return (← i64 (if date.1 ≤ 2 then y + 1 else y), date)

/-- `days_from_civil` (`interp.rs:2002-2009`). -/
def daysFromCivil (year month day : Int) : Option Int := do
  let y ← i64 (if month ≤ 2 then year - 1 else year)
  let era := (← i64 (if 0 ≤ y then y else y - 399)).tdiv 400
  let yoe ← i64 (y - (← i64 (era * 400)))
  let mp ← i64 (if month > 2 then month - 3 else month + 9)
  let before := (← i64 ((← i64 (153 * mp)) + 2)).tdiv 5
  let doy ← i64 ((← i64 (before + day)) - 1)
  let leaps ← i64 ((← i64 (yoe * 365)) + yoe.tdiv 4)
  let doe ← i64 ((← i64 (leaps - yoe.tdiv 100)) + doy)
  i64 ((← i64 ((← i64 (era * 146097)) + doe)) - 719468)

/-- The errors of `from_ymd`, among those of `RuntimeError` (`interp.rs:217-258`). -/
inductive RuntimeError where
  | type (message : String)
  | arithmetic (message : String)
deriving DecidableEq, Repr

/-- `from_ymd` of `datetime_op` (`interp.rs:1325-1343`), nothing for a panic. -/
def fromYmd (y m d : Int) : Option (Except RuntimeError Int) :=
  if ¬ (1 ≤ m ∧ m ≤ 12) then some (.error (.type "from_ymd: month must be 1..=12"))
  else if ¬ (1 ≤ d ∧ d ≤ 31) then some (.error (.type "from_ymd: day must be 1..=31"))
  else do
    let days ← daysFromCivil y m d
    return match i64 (days * 86400) with
      | some ts => .ok ts
      | none => .error (.arithmetic "from_ymd overflow")

end NexaCore.Script
