import NexaCore.Script.Calendar

/-!
# The calendar is exact

`dayNumber` numbers the dates of the proleptic Gregorian calendar without eras: the day after a
date has the next number (`dayNumber_next`), different dates different ones (`dayNumber_inj`).
`civilFromDays` inverts it (`civilFromDays_eq_some`) and `daysFromCivil` computes it where it fits
(`daysFromCivil_eq_some`).
-/

namespace NexaCore.Script

open Int

def Leap (year : Int) : Prop := year % 4 = 0 ∧ (year % 100 ≠ 0 ∨ year % 400 = 0)

instance (year : Int) : Decidable (Leap year) := inferInstanceAs (Decidable (_ ∧ _))

def monthLength (year month : Int) : Int :=
  if month = 2 then if Leap year then 29 else 28
  else if month = 4 ∨ month = 6 ∨ month = 9 ∨ month = 11 then 30 else 31

structure IsDate (y m d : Int) : Prop where
  month : 1 ≤ m ∧ m ≤ 12
  day : 1 ≤ d ∧ d ≤ monthLength y m

def nextDate (y m d : Int) : Int × Int × Int :=
  if d < monthLength y m then (y, m, d + 1) else if m < 12 then (y, m + 1, 1) else (y + 1, 1, 1)

/-- The year that begins in March. -/
def marchYear (year m : Int) : Int := if m ≤ 2 then year - 1 else year

/-- The days of such a year before a date. -/
def dayOfYear (m d : Int) : Int := (153 * (if m > 2 then m - 3 else m + 9) + 2) / 5 + d - 1

/-- The days before such a year. -/
def daysBefore (y : Int) : Int := 365 * y + y / 4 - y / 100 + y / 400

/-- The days from the epoch to a date. -/
def dayNumber (year m d : Int) : Int :=
  daysBefore (marchYear year m) + dayOfYear m d - 719468

theorem monthLength_le (y m : Int) : monthLength y m ≤ 31 := by
  unfold monthLength
  omega

theorem i64_eq_some {n r : Int} : i64 n = some r ↔ FitsI64 n ∧ n = r := by
  simp [i64]

theorem i64_bind_eq_some {α : Type} {n : Int} {f : Int → Option α} {r : α} :
    i64 n >>= f = some r ↔ FitsI64 n ∧ f n = some r := by
  simp [Option.bind_eq_some_iff, i64_eq_some, and_assoc]

theorem tdiv_floor (z : Int) :
    (if 0 ≤ z then z else z - 146096).tdiv 146097 = z / 146097 ∧
      (if 0 ≤ z then z else z - 399).tdiv 400 = z / 400 := by
  constructor <;> rw [tdiv_eq_ediv]
  · rw [show sign 146097 = 1 from rfl]
    omega
  · rw [show sign 400 = 1 from rfl]
    omega

theorem yearOfEra_eq_some {doe : Int} (low : 0 ≤ doe) (high : doe < 146097) :
    ∃ yoe doy, yearOfEra doe = some (yoe, doy) ∧ 0 ≤ yoe ∧ yoe ≤ 399 ∧
      doe = 365 * yoe + yoe / 4 - yoe / 100 + doy ∧ 0 ≤ doy ∧
      doy ≤ 364 + if Leap (yoe + 1) then 1 else 0 := by
  generalize same : (doe - doe / 1460 + doe / 36524 - doe / 146096) / 365 = yoe
  refine ⟨yoe, doe - (365 * yoe + yoe / 4 - yoe / 100), ?_, by omega, by omega, by omega, ?_⟩
  · simp (disch := omega) only [yearOfEra, i64_bind_eq_some, FitsI64, tdiv_eq_ediv_of_nonneg, same]
    simp only [pure, and_true]
    omega
  · -- the quotients of the day and those of the year differ by one at most
    have fourth : yoe / 4 = doe / 1460 ∨ yoe / 4 = doe / 1460 - 1 := by omega
    have century : yoe / 100 = doe / 36524 ∨ yoe / 100 = doe / 36524 - 1 := by omega
    have next : (yoe + 1) / 4 = yoe / 4 ∨ (yoe + 1) / 4 = yoe / 4 + 1 := by omega
    have last : doe = 146096 ∨ doe / 146096 = 0 := by omega
    unfold Leap
    rcases fourth with fourth | fourth <;> rcases century with century | century <;>
      rcases next with next | next <;> rcases last with rfl | last <;> omega

theorem monthAndDay_eq_some {doy : Int} (low : 0 ≤ doy) (high : doy ≤ 365) :
    ∃ m d, monthAndDay doy = some (m, d) ∧ (1 ≤ m ∧ m ≤ 12) ∧ dayOfYear m d = doy ∧
      ∀ year, (doy = 365 → m ≤ 2 → Leap year) → 1 ≤ d ∧ d ≤ monthLength year m := by
  generalize same : (5 * doy + 2) / 153 = mp
  refine ⟨if mp < 10 then mp + 3 else mp - 9, doy - (153 * mp + 2) / 5 + 1, ?_, by omega,
    by unfold dayOfYear; omega, fun year leap => ?_⟩
  · simp (disch := omega) only [monthAndDay, i64_bind_eq_some, FitsI64,
      tdiv_eq_ediv_of_nonneg, same]
    simp only [pure, and_true]
    omega
  · have low : 0 ≤ mp := by omega
    have high : mp ≤ 11 := by omega
    unfold monthLength
    by_cases leaps : Leap year <;> simp only [leaps, imp_false, if_true, if_false] at leap ⊢ <;>
      interval_cases mp <;> omega

theorem civilFromDays_eq_some {days : Int} (low : -2 ^ 62 ≤ days) (high : days ≤ 2 ^ 62) :
    ∃ y m d, civilFromDays days = some (y, m, d) ∧ IsDate y m d ∧ dayNumber y m d = days := by
  generalize same : (days + 719468) / 146097 = era
  obtain ⟨yoe, doy, year, first, last, doe, zero, leap⟩ :=
    yearOfEra_eq_some (show 0 ≤ days + 719468 - era * 146097 by omega) (by omega)
  obtain ⟨m, d, date, month, number, day⟩ := monthAndDay_eq_some zero (by omega)
  refine ⟨if m ≤ 2 then yoe + era * 400 + 1 else yoe + era * 400, m, d, ?_, ⟨month, day _ ?_⟩, ?_⟩
  · have step (p : Int × Int) (f : Int × Int → Option (Int × Int × Int)) : some p >>= f = f p := rfl
    simp only [civilFromDays, i64_bind_eq_some, FitsI64, (tdiv_floor _).1, same, year, date, step]
    simp only [pure, and_true]
    omega
  · intro full early
    unfold Leap at *
    omega
  · unfold dayNumber daysBefore marchYear
    omega

theorem daysFromCivil_eq_some {y m d r : Int} (year : FitsI64 y) (month : 1 ≤ m ∧ m ≤ 12)
    (day : 1 ≤ d ∧ d ≤ 31) :
    daysFromCivil y m d = some r ↔
      dayNumber y m d = r ∧ FitsI64 (dayNumber y m d) ∧ FitsI64 (dayNumber y m d + 719468) := by
  have parts : ∀ y : Int, (y - y / 400 * 400) / 4 = y / 4 - 100 * (y / 400) ∧
      (y - y / 400 * 400) / 100 = y / 100 - 4 * (y / 400) := by
    omega
  unfold FitsI64 at year
  simp only [daysFromCivil, i64_bind_eq_some, i64_eq_some, FitsI64, (tdiv_floor _).2]
  simp (disch := omega) only [tdiv_eq_ediv_of_nonneg, parts]
  simp only [dayNumber, daysBefore, marchYear, dayOfYear]
  split <;> omega

theorem daysBefore_mono {y y' : Int} (less : y < y') : daysBefore (y + 1) ≤ daysBefore y' := by
  unfold daysBefore
  omega

/-- A date lies in its year, and in the month that its day of the year tells. -/
theorem IsDate.dayOfYear {y m d : Int} (date : IsDate y m d) :
    0 ≤ dayOfYear m d ∧
      daysBefore (marchYear y m) + dayOfYear m d < daysBefore (marchYear y m + 1) ∧
      (5 * dayOfYear m d + 2) / 153 = if m > 2 then m - 3 else m + 9 := by
  obtain ⟨⟨low, high⟩, first, last⟩ := date
  unfold monthLength Leap at last
  unfold Script.dayOfYear daysBefore marchYear
  interval_cases m <;> simp at last ⊢ <;> omega

theorem dayNumber_inj {y m d y' m' d' : Int} (date : IsDate y m d) (date' : IsDate y' m' d')
    (same : dayNumber y m d = dayNumber y' m' d') : (y, m, d) = (y', m', d') := by
  have year : marchYear y m = marchYear y' m' := by
    obtain ⟨zero, next, -⟩ := date.dayOfYear
    obtain ⟨zero', next', -⟩ := date'.dayOfYear
    unfold dayNumber at same
    rcases lt_trichotomy (marchYear y m) (marchYear y' m') with less | equal | less
    · have := daysBefore_mono less
      omega
    · exact equal
    · have := daysBefore_mono less
      omega
  have day : dayOfYear m d = dayOfYear m' d' := by
    unfold dayNumber at same
    rw [year] at same
    omega
  have month : m = m' := by
    have here := date.dayOfYear.2.2
    have there := date'.dayOfYear.2.2
    have := date.month
    have := date'.month
    rw [day] at here
    omega
  subst month
  simp only [marchYear, dayOfYear] at year day
  simp only [Prod.mk.injEq, true_and]
  omega

theorem dayNumber_next {y m d : Int} (date : IsDate y m d) :
    ∃ y' m' d', nextDate y m d = (y', m', d') ∧ IsDate y' m' d' ∧
      dayNumber y' m' d' = dayNumber y m d + 1 := by
  obtain ⟨⟨low, high⟩, first, last⟩ := date
  unfold nextDate
  split
  · exact ⟨_, _, _, rfl, ⟨⟨low, high⟩, by omega, by omega⟩, by unfold dayNumber dayOfYear; omega⟩
  · rename_i full
    obtain rfl := Int.le_antisymm last (not_lt.mp full)
    unfold dayNumber dayOfYear daysBefore marchYear
    split
    · refine ⟨_, _, _, rfl, ⟨by omega, by unfold monthLength; omega⟩, ?_⟩
      unfold monthLength Leap
      interval_cases m <;> simp <;> omega
    · obtain rfl : m = 12 := by omega
      exact ⟨_, _, _, rfl, ⟨by omega, by unfold monthLength; omega⟩, by simp [monthLength]; omega⟩

theorem FitsI64.daysOf {ts : Int} (time : FitsI64 ts) :
    -2 ^ 62 ≤ daysOf ts ∧ daysOf ts ≤ 2 ^ 62 := by
  unfold FitsI64 Script.daysOf at *
  omega

/-- The number of a date gives the date back, and only that of a date does. -/
theorem civilFromDays_dayNumber {y m d : Int}
    (small : -2 ^ 62 ≤ dayNumber y m d ∧ dayNumber y m d ≤ 2 ^ 62) :
    civilFromDays (dayNumber y m d) = some (y, m, d) ↔ IsDate y m d := by
  obtain ⟨y', m', d', civil, date, number⟩ := civilFromDays_eq_some small.1 small.2
  rw [civil]
  constructor
  · rintro ⟨⟩
    exact date
  · intro date'
    rw [dayNumber_inj date date' number]

/-- Every timestamp has a date, no step of the arithmetic overflows, the date gives its day back,
and the next day has the next date. -/
theorem calendar_exact {ts : Int} (time : FitsI64 ts) :
    ∃ y m d, civilFromDays (daysOf ts) = some (y, m, d) ∧ IsDate y m d ∧
      daysFromCivil y m d = some (daysOf ts) ∧
      ∀ ts', FitsI64 ts' → daysOf ts' = daysOf ts + 1 →
        civilFromDays (daysOf ts') = some (nextDate y m d) := by
  obtain ⟨low, high⟩ := time.daysOf
  obtain ⟨y, m, d, civil, date, number⟩ := civilFromDays_eq_some low high
  refine ⟨y, m, d, civil, date, ?_, fun ts' time' next => ?_⟩
  · refine (daysFromCivil_eq_some ?_ date.month ?_).mpr
      ⟨number, by unfold FitsI64; omega, by unfold FitsI64; omega⟩
    · have month := date.month
      have day := date.day
      have short := monthLength_le y m
      simp only [dayNumber, daysBefore, marchYear, dayOfYear] at number
      unfold FitsI64
      omega
    · exact ⟨date.day.1, date.day.2.trans (monthLength_le y m)⟩
  · obtain ⟨y', m', d', same, date', number'⟩ := dayNumber_next date
    have day : daysOf ts' = dayNumber y' m' d' := by omega
    rw [day, (civilFromDays_dayNumber (day ▸ time'.daysOf)).mpr date', same]

/-- Noon of a leap day, and the day after. -/
theorem calendar_exact_leapDay :
    FitsI64 1709208000 ∧ civilFromDays (daysOf 1709208000) = some (2024, 2, 29) ∧
      daysFromCivil 2024 2 29 = some (daysOf 1709208000) ∧
      civilFromDays (daysOf 1709294400) = some (2024, 3, 1) := by
  have time : FitsI64 1709208000 := by decide
  obtain ⟨y, m, d, civil, -, back, next⟩ := calendar_exact time
  have date : civilFromDays (daysOf 1709208000) = some (2024, 2, 29) := by decide +kernel
  cases civil.symm.trans date
  exact ⟨time, date, back, next 1709294400 (by decide) (by decide)⟩

/-- `from_ymd` returns, and a timestamp that it returns has the date that was asked for. -/
def YmdExact (y m d : Int) : Prop :=
  fromYmd y m d ≠ none ∧
    ∀ ts, fromYmd y m d = some (.ok ts) → civilFromDays (daysOf ts) = some (y, m, d)

/-- The arguments for which `from_ymd` is exact: a month or a day out of its range, or a date whose
day number the arithmetic can hold and that exists or is too far for a timestamp. -/
def Representable (y m d : Int) : Prop :=
  ¬ (1 ≤ m ∧ m ≤ 12) ∨ ¬ (1 ≤ d ∧ d ≤ 31) ∨
    (FitsI64 (dayNumber y m d) ∧ FitsI64 (dayNumber y m d + 719468)) ∧
      (d ≤ monthLength y m ∨ ¬ FitsI64 (dayNumber y m d * 86400))

theorem ymdExact_iff {y m d : Int} (year : FitsI64 y) : YmdExact y m d ↔ Representable y m d := by
  unfold YmdExact Representable fromYmd
  by_cases month : 1 ≤ m ∧ m ≤ 12
  · by_cases day : 1 ≤ d ∧ d ≤ 31
    · by_cases fits : FitsI64 (dayNumber y m d) ∧ FitsI64 (dayNumber y m d + 719468)
      · rw [(daysFromCivil_eq_some year month day).mpr ⟨rfl, fits⟩]
        by_cases time : FitsI64 (dayNumber y m d * 86400)
        · have back : daysOf (dayNumber y m d * 86400) = dayNumber y m d := by
            unfold daysOf
            omega
          simp [month, day, fits, time, i64, back, civilFromDays_dayNumber (back ▸ time.daysOf)]
          exact ⟨fun date => date.day.2, fun short => ⟨month, day.1, short⟩⟩
        · simp [month, day, fits, time, i64]
      · have panics : daysFromCivil y m d = none :=
          Option.eq_none_iff_forall_ne_some.mpr fun r some =>
            fits ((daysFromCivil_eq_some year month day).mp some).2
        simp [month, day, fits, panics]
    · simp [month, day]
  · simp [month]

theorem ymdExact_iff_leapDay : FitsI64 2024 ∧ Representable 2024 2 29 ∧ YmdExact 2024 2 29 := by
  have representable : Representable 2024 2 29 := .inr (.inr ⟨by decide, .inl (by decide)⟩)
  exact ⟨by decide, representable, (ymdExact_iff (by decide)).mpr representable⟩

/-- A day that does not exist is taken for one of the next month, and a far year panics. -/
theorem not_ymdExact : ¬ YmdExact 2023 2 30 ∧ ¬ YmdExact (2 ^ 63 - 1) 1 1 := by
  constructor
  · intro exact_
    have date := exact_.2 1677715200 (by decide +kernel)
    revert date
    decide +kernel
  · intro exact_
    exact exact_.1 (by decide +kernel)

end NexaCore.Script
