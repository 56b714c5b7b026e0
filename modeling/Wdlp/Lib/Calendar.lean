import Mathlib

/-!
# The proleptic Gregorian calendar

Civil dates, the day after a date, and the number of days from 1970-01-01 to a date.

## Main definitions

* `CivilDate`, `CivilDate.next` — a date, and the day after it.
* `CivilDate.ofDay` — the date of a day, counted from 1970-01-01 one day after the other.
* `CivilDate.dayNumber` — the number of days from 1970-01-01 to a date.

## Main results

* `CivilDate.dayNumber_ofDay` — counting forward and counting back agree.
-/

namespace CrashSafe

/-- A date by its year, month (from 1) and day (from 1). -/
structure CivilDate where
  year : ℤ
  month : ℤ
  day : ℤ
  deriving DecidableEq, Repr

/-- Every fourth year, but of the centuries only every fourth one. -/
def IsLeapYear (year : ℤ) : Prop := year % 4 = 0 ∧ (year % 100 ≠ 0 ∨ year % 400 = 0)

instance (year : ℤ) : Decidable (IsLeapYear year) := inferInstanceAs (Decidable (_ ∧ _))

/-- The length of a month. -/
def daysInMonth (year month : ℤ) : ℤ :=
  if month = 2 then if IsLeapYear year then 29 else 28
  else if month = 4 ∨ month = 6 ∨ month = 9 ∨ month = 11 then 30
  else 31

/-- The days from the beginning of the calendar to the first of January of a year. -/
def daysBeforeYear (year : ℤ) : ℤ :=
  365 * (year - 1) + (year - 1) / 4 - (year - 1) / 100 + (year - 1) / 400

/-- The days of a year before a month. -/
def daysBeforeMonth (year month : ℤ) : ℤ :=
  (([0, 31, 59, 90, 120, 151, 181, 212, 243, 273, 304, 334] : List ℤ)[(month - 1).toNat]?.getD 0) +
    if 2 < month ∧ IsLeapYear year then 1 else 0

namespace CivilDate

/-- The first day of the count. -/
def epoch : CivilDate := ⟨1970, 1, 1⟩

/-- The day after a date. -/
def next (d : CivilDate) : CivilDate :=
  if d.day < daysInMonth d.year d.month then ⟨d.year, d.month, d.day + 1⟩
  else if d.month < 12 then ⟨d.year, d.month + 1, 1⟩
  else ⟨d.year + 1, 1, 1⟩

/-- The date of a day, counted from 1970-01-01. -/
def ofDay (n : ℕ) : CivilDate := next^[n] epoch

theorem ofDay_succ (n : ℕ) : ofDay (n + 1) = (ofDay n).next :=
  Function.iterate_succ_apply' next n epoch

/-- A date that is in the calendar. -/
structure Valid (d : CivilDate) : Prop where
  month_pos : 1 ≤ d.month
  month_le : d.month ≤ 12
  day_pos : 1 ≤ d.day
  day_le : d.day ≤ daysInMonth d.year d.month

/-- The number of days from 1970-01-01 to a date. -/
def dayNumber (d : CivilDate) : ℤ :=
  daysBeforeYear d.year + daysBeforeMonth d.year d.month + (d.day - 1) - daysBeforeYear 1970

theorem daysInMonth_pos (year month : ℤ) : 1 ≤ daysInMonth year month := by
  unfold daysInMonth
  split_ifs <;> norm_num

theorem Valid.next {d : CivilDate} (h : d.Valid) : d.next.Valid := by
  unfold CivilDate.next
  split_ifs with hday hmonth
  · exact ⟨h.month_pos, h.month_le, h.day_pos.trans (by simp), hday⟩
  · exact ⟨h.month_pos.trans (by simp), hmonth, le_rfl, daysInMonth_pos _ _⟩
  · exact ⟨le_rfl, by norm_num, le_rfl, daysInMonth_pos _ _⟩

/-- The months follow each other. -/
theorem daysBeforeMonth_succ {year month : ℤ} (hpos : 1 ≤ month) (hlt : month < 12) :
    daysBeforeMonth year (month + 1) = daysBeforeMonth year month + daysInMonth year month := by
  by_cases hleap : IsLeapYear year <;> interval_cases month <;>
    simp [daysBeforeMonth, daysInMonth, hleap]

/-- The years follow each other. -/
theorem daysBeforeYear_succ (year : ℤ) :
    daysBeforeYear (year + 1) = daysBeforeYear year + daysBeforeMonth year 12 + 31 := by
  by_cases hleap : IsLeapYear year
  · have hmonth : daysBeforeMonth year 12 = 335 := by simp [daysBeforeMonth, hleap]
    rw [IsLeapYear] at hleap
    rw [hmonth, daysBeforeYear, daysBeforeYear]
    omega
  · have hmonth : daysBeforeMonth year 12 = 334 := by simp [daysBeforeMonth, hleap]
    rw [IsLeapYear] at hleap
    rw [hmonth, daysBeforeYear, daysBeforeYear]
    omega

/-- The day after is one day later. -/
theorem Valid.dayNumber_next {d : CivilDate} (h : d.Valid) :
    d.next.dayNumber = d.dayNumber + 1 := by
  have hday := h.day_le
  unfold CivilDate.next
  split_ifs with hlt hmonth
  · simp only [dayNumber]
    ring
  · have hlast : d.day = daysInMonth d.year d.month := le_antisymm hday (not_lt.mp hlt)
    simp only [dayNumber, daysBeforeMonth_succ h.month_pos hmonth, hlast]
    ring
  · have hlast : d.day = daysInMonth d.year d.month := le_antisymm hday (not_lt.mp hlt)
    have hdec : d.month = 12 := le_antisymm h.month_le (not_lt.mp hmonth)
    have hjan : daysBeforeMonth (d.year + 1) 1 = 0 := by simp [daysBeforeMonth]
    have hlen : daysInMonth d.year 12 = 31 := by simp [daysInMonth]
    rw [hdec, hlen] at hlast
    simp only [dayNumber, daysBeforeYear_succ, hjan, hlast, hdec]
    ring

theorem valid_ofDay (n : ℕ) : (ofDay n).Valid := by
  induction n with
  | zero => exact ⟨by decide, by decide, by decide, by decide⟩
  | succ n ih => exact ofDay_succ n ▸ ih.next

/-- Counting forward and counting back agree. -/
theorem dayNumber_ofDay (n : ℕ) : (ofDay n).dayNumber = n := by
  induction n with
  | zero => decide
  | succ n ih =>
    rw [ofDay_succ, (valid_ofDay n).dayNumber_next, ih]
    push_cast
    ring

end CivilDate

end CrashSafe
