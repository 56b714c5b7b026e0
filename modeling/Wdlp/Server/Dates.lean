import Wdlp.Lib.Calendar
import Wdlp.Server.Serials

/-!
# The dates of a credential

The issuer computes the first and the last day of a leaf certificate from the system clock with a
closed formula: years begin in March, so that a leap day is the last day of its year, and come in
eras of 400 years or 146097 days. All numbers are 64-bit integers that are far from the limits here;
the results are cut to 32 and 8 bits.

## Main definitions

* `utcDateAfterDays` — the date a number of days after today.
* `timestamp` — the second in which a date begins, as certificates are read.
* `issuedLeaf` — the leaf with the dates that are computed, each at its own reading of the clock.

## Main results

* `marchYear_spec` — the year that the formula finds is the one the day lies in.
* `fromMarch_next` — the day after a day of a year that begins in March.
* `utcDateAfterDays_civil` — the dates are those of the calendar, and a leaf is valid for 30 days.
-/

namespace Wdlp

open CrashSafe
open CivilDate (next ofDay ofDay_succ)

/-! ### The formula -/

/-- A conversion to `i32`. -/
def asI32 (x : ℤ) : ℤ := x.bmod (2 ^ 32)

/-- A conversion to `u8`. -/
def asU8 (x : ℤ) : ℤ := x % 2 ^ 8

/-- The month, the day and the year from the day of a year that begins in March. -/
def fromMarch (year dayOfYear : ℤ) : CivilDate :=
  let monthPrime := (5 * dayOfYear + 2).tdiv 153
  let day := dayOfYear - (153 * monthPrime + 2).tdiv 5 + 1
  let month := monthPrime + if monthPrime < 10 then 3 else -9
  let year := year + if month ≤ 2 then 1 else 0
  ⟨year, month, day⟩

/-- `utc_date_after_days`, at the given second of the system clock. -/
def utcDateAfterDays (now : ℕ) (additionalDays : ℤ) : CivilDate :=
  let unixDays := (now : ℤ).tdiv 86400 + additionalDays
  let z := unixDays + 719468
  let era := (if 0 ≤ z then z else z - 146096).tdiv 146097
  let doe := z - era * 146097
  let yoe := (doe - doe.tdiv 1460 + doe.tdiv 36524 - doe.tdiv 146096).tdiv 365
  let year := yoe + era * 400
  let dayOfYear := doe - (365 * yoe + yoe.tdiv 4 - yoe.tdiv 100)
  let date := fromMarch year dayOfYear
  ⟨asI32 date.year, asU8 date.month, asU8 date.day⟩

/-! ### The year a day lies in -/

/-- The day on which a year that begins in March begins. -/
def marchStart (year : ℤ) : ℤ := 365 * year + year / 4 - year / 100 + year / 400

theorem marchStart_succ (year : ℤ) :
    marchStart (year + 1) = marchStart year + if IsLeapYear (year + 1) then 366 else 365 := by
  unfold marchStart IsLeapYear
  split_ifs with h <;> omega

/-- After 400 years the leap years repeat. -/
theorem marchStart_era (yoe era : ℤ) :
    marchStart (yoe + era * 400) = marchStart yoe + era * 146097 := by
  have h4 : (yoe + era * 400) / 4 = yoe / 4 + era * 100 := by omega
  have h100 : (yoe + era * 400) / 100 = yoe / 100 + era * 4 := by omega
  have h400 : (yoe + era * 400) / 400 = yoe / 400 + era := by omega
  rw [marchStart, marchStart, h4, h100, h400]
  ring

theorem marchStart_strictMono : StrictMono marchStart := by
  refine strictMono_int_of_lt_succ fun year => ?_
  rw [marchStart_succ]
  split_ifs <;> omega

/-- The days of an era without those that leap days have added. -/
def plainDays (doe : ℕ) : ℕ := doe - doe / 1460 + doe / 36524 - doe / 146096

theorem plainDays_mono : Monotone plainDays := by
  refine monotone_nat_of_le_succ fun doe => ?_
  unfold plainDays
  omega

/-- The first day of a year of an era. -/
def yearStart (yoe : ℕ) : ℕ := 365 * yoe + yoe / 4 - yoe / 100 + yoe / 400

theorem natCast_yearStart (yoe : ℕ) : (yearStart yoe : ℤ) = marchStart yoe := by
  unfold yearStart marchStart
  omega

theorem plainDays_yearStart : ∀ yoe < 400, plainDays (yearStart yoe)
    / 365 = yoe ∧ plainDays (yearStart (yoe + 1) - 1) / 365 = yoe := by
  decide +kernel

/-- The year of an era that the formula finds is the one the day lies in. -/
theorem yearOfEra_spec {doe : ℕ} (h : doe < 146097) :
    plainDays doe / 365 < 400 ∧ yearStart (plainDays doe / 365) ≤ doe ∧
      doe < yearStart (plainDays doe / 365 + 1) := by
  have hmono : ∀ {a b : ℕ}, a ≤ b → plainDays a / 365 ≤ plainDays b / 365 :=
    fun hab => Nat.div_le_div_right (plainDays_mono hab)
  have hlt : plainDays doe / 365 < 400 := by
    refine (hmono (Nat.le_of_lt_succ h)).trans_lt ?_
    decide +kernel
  refine ⟨hlt, ?_, ?_⟩
  · by_contra hnot
    have hpos : 0 < plainDays doe / 365 := by
      rcases Nat.eq_zero_or_pos (plainDays doe / 365) with hzero | hpos
      · rw [hzero] at hnot
        exact absurd (Nat.zero_le doe) hnot
      · exact hpos
    obtain ⟨y, hy⟩ := Nat.exists_eq_succ_of_ne_zero hpos.ne'
    rw [hy] at hnot
    have hle := hmono (Nat.le_sub_one_of_lt (not_le.mp hnot))
    rw [(plainDays_yearStart y (by omega)).2] at hle
    omega
  · by_contra hnot
    rcases Nat.lt_or_ge (plainDays doe / 365 + 1) 400 with hy | hy
    · have hle := hmono (not_lt.mp hnot)
      rw [(plainDays_yearStart _ hy).1] at hle
      omega
    · have hlast : plainDays doe / 365 + 1 = 400 := by omega
      rw [hlast] at hnot
      exact hnot h

/-- The year that begins in March in which a day of the count from 0000-03-01 lies. -/
def marchYear (z : ℤ) : ℤ :=
  let doe := z % 146097
  (doe - doe / 1460 + doe / 36524 - doe / 146096) / 365 + z / 146097 * 400

/-- The year that the formula finds is the one the day lies in. -/
theorem marchYear_spec (z : ℤ) : marchStart (marchYear z) ≤ z ∧ z < marchStart (marchYear z + 1) := by
  obtain ⟨doe, hdoe⟩ := Int.eq_ofNat_of_zero_le (Int.emod_nonneg z (by norm_num : (146097 : ℤ) ≠ 0))
  have hlt : doe < 146097 := by
    have := Int.emod_lt_of_pos z (by norm_num : (0 : ℤ) < 146097)
    omega
  obtain ⟨hyoe, hlow, hhigh⟩ := yearOfEra_spec hlt
  have hyear : marchYear z = ↑(plainDays doe / 365) + z / 146097 * 400 := by
    simp only [marchYear, hdoe, plainDays]
    omega
  have hlow' := natCast_yearStart _ ▸ Int.ofNat_le.mpr hlow
  have hhigh' := natCast_yearStart _ ▸ Int.ofNat_lt.mpr hhigh
  rw [Nat.cast_add, Nat.cast_one] at hhigh'
  have hsucc : marchYear z + 1 = ↑(plainDays doe / 365) + 1 + z / 146097 * 400 := by
    rw [hyear]
    ring
  rw [hsucc, hyear, marchStart_era, marchStart_era]
  omega

/-- The year of the day after. -/
theorem marchYear_succ (z : ℤ) :
    (marchYear (z + 1) = marchYear z ∧ z + 1 < marchStart (marchYear z + 1)) ∨
      (marchYear (z + 1) = marchYear z + 1 ∧ z + 1 = marchStart (marchYear z + 1)) := by
  obtain ⟨hlow, hhigh⟩ := marchYear_spec z
  obtain ⟨hlow', hhigh'⟩ := marchYear_spec (z + 1)
  have hge : marchYear z < marchYear (z + 1) + 1 := by
    refine marchStart_strictMono.lt_iff_lt.mp ?_
    omega
  rcases lt_or_ge (z + 1) (marchStart (marchYear z + 1)) with hlt | hge'
  · have hle : marchYear (z + 1) < marchYear z + 1 :=
      marchStart_strictMono.lt_iff_lt.mp (hlow'.trans_lt hlt)
    exact .inl ⟨by omega, hlt⟩
  · have heq : z + 1 = marchStart (marchYear z + 1) := by omega
    have hle : marchYear (z + 1) ≤ marchYear z + 1 :=
      marchStart_strictMono.le_iff_le.mp (heq ▸ hlow')
    have hlt : marchYear z + 1 < marchYear (z + 1) + 1 :=
      marchStart_strictMono.lt_iff_lt.mp (heq ▸ hhigh')
    exact .inr ⟨by omega, heq⟩

/-! ### The days of a year that begins in March -/

/-- The date of a day of a year that begins in March, by the month it lies in. -/
def inMonth (year m dayOfYear : ℤ) : CivilDate :=
  if m < 10 then ⟨year, m + 3, dayOfYear - (153 * m + 2) / 5 + 1⟩
  else ⟨year + 1, m - 9, dayOfYear - (153 * m + 2) / 5 + 1⟩

theorem inMonth_day (year m dayOfYear : ℤ) :
    (inMonth year m dayOfYear).day = dayOfYear - (153 * m + 2) / 5 + 1 := by
  unfold inMonth
  split_ifs <;> rfl

variable {year m dayOfYear : ℤ}

/-- Each month is found from the days that lie in it. -/
theorem fromMarch_eq_inMonth (hm : 0 ≤ m) (hlt : m < 12)
    (hlow : (153 * m + 2) / 5 ≤ dayOfYear) (hhigh : dayOfYear < (153 * (m + 1) + 2) / 5) :
    fromMarch year dayOfYear = inMonth year m dayOfYear := by
  have hday : 0 ≤ dayOfYear := by omega
  have hprime : (5 * dayOfYear + 2).tdiv 153 = m := by
    rw [Int.tdiv_eq_ediv_of_nonneg (by omega)]
    omega
  have hfirst : (153 * m + 2).tdiv 5 = (153 * m + 2) / 5 := Int.tdiv_eq_ediv_of_nonneg (by omega)
  simp only [fromMarch, inMonth, hprime, hfirst]
  by_cases h10 : m < 10
  · have hmonth : ¬ m + 3 ≤ 2 := by omega
    simp only [if_pos h10, if_neg hmonth, add_zero]
  · have hmonth : m + -9 ≤ 2 := by omega
    simp only [if_neg h10, if_pos hmonth]
    rfl

theorem exists_month {dayOfYear : ℤ} (hnonneg : 0 ≤ dayOfYear) (hlt : dayOfYear < 366) :
    ∃ m, 0 ≤ m ∧ m < 12 ∧ (153 * m + 2) / 5 ≤ dayOfYear ∧ dayOfYear < (153 * (m + 1) + 2) / 5 :=
  ⟨(5 * dayOfYear + 2) / 153, by omega, by omega, by omega, by omega⟩

/-- The months from March to January have the lengths that the formula gives them, and February
has what is left of the year. -/
theorem daysInMonth_inMonth (year : ℤ) {m : ℤ} (dayOfYear : ℤ) (hm : 0 ≤ m) (hlt : m < 12) :
    daysInMonth (inMonth year m dayOfYear).year (inMonth year m dayOfYear).month =
      if m = 11 then if IsLeapYear (year + 1) then 29 else 28
      else (153 * (m + 1) + 2) / 5 - (153 * m + 2) / 5 := by
  interval_cases m <;> simp [inMonth, daysInMonth]

/-- The day after a day of a month, within that month. -/
theorem inMonth_next (h : (inMonth year m dayOfYear).day <
      daysInMonth (inMonth year m dayOfYear).year (inMonth year m dayOfYear).month) :
    (inMonth year m dayOfYear).next = inMonth year m (dayOfYear + 1) := by
  rw [next, if_pos h]
  unfold inMonth
  split_ifs <;> simp <;> ring

/-- The day after the last day of a month before February. -/
theorem inMonth_turn (hm : 0 ≤ m) (hlt : m < 11) (hlast : dayOfYear + 1 = (153 * (m + 1) + 2) / 5) :
    (inMonth year m dayOfYear).next = inMonth year (m + 1) (dayOfYear + 1) := by
  have hlength := daysInMonth_inMonth year dayOfYear hm (hlt.trans (by norm_num))
  rw [if_neg hlt.ne] at hlength
  rw [next, hlength, inMonth_day, if_neg (by omega)]
  interval_cases m <;> simp [inMonth] <;> omega

variable {year dayOfYear : ℤ}

/-- The day after a day of a year that begins in March, within that year. -/
theorem fromMarch_next (hnonneg : 0 ≤ dayOfYear)
    (hlt : dayOfYear + 1 < if IsLeapYear (year + 1) then 366 else 365) :
    fromMarch year (dayOfYear + 1) = (fromMarch year dayOfYear).next := by
  have hlt' : dayOfYear + 1 < 366 := hlt.trans_le (by split_ifs <;> norm_num)
  obtain ⟨m, hm, h12, hlow, hhigh⟩ := exists_month hnonneg (by omega)
  rw [fromMarch_eq_inMonth hm h12 hlow hhigh]
  rcases lt_or_ge (dayOfYear + 1) ((153 * (m + 1) + 2) / 5) with hsame | hturn
  · rw [fromMarch_eq_inMonth hm h12 (by omega) hsame, inMonth_next]
    rw [inMonth_day, daysInMonth_inMonth year dayOfYear hm h12]
    split_ifs at hlt ⊢ <;> omega
  · have h11 : m < 11 := by omega
    rw [fromMarch_eq_inMonth (by omega) (by omega : m + 1 < 12) hturn (by omega),
      inMonth_turn hm h11 (by omega)]

/-- The day after the last day of a year that begins in March. -/
theorem fromMarch_last (hlast : dayOfYear + 1 = if IsLeapYear (year + 1) then 366 else 365) :
    fromMarch (year + 1) 0 = (fromMarch year dayOfYear).next := by
  have hfeb : 337 ≤ dayOfYear ∧ dayOfYear < 367 := by
    split_ifs at hlast <;> omega
  have hlength := daysInMonth_inMonth year (m := 11) dayOfYear (by norm_num) (by norm_num)
  rw [if_pos rfl] at hlength
  rw [fromMarch_eq_inMonth (m := 0) le_rfl (by norm_num) (by norm_num) (by norm_num),
    fromMarch_eq_inMonth (m := 11) (by norm_num) (by norm_num) (by norm_num; omega)
      (by norm_num; omega), next, hlength]
  have hday : ¬ (inMonth year 11 dayOfYear).day < if IsLeapYear (year + 1) then 29 else 28 := by
    simp only [inMonth]
    split_ifs at hlast ⊢ <;> simp <;> omega
  rw [if_neg hday]
  simp [inMonth]

/-! ### The dates are those of the calendar -/

/-- The date of a day of the count from 0000-03-01. -/
def dateOfCount (z : ℤ) : CivilDate :=
  fromMarch (marchYear z) (z - marchStart (marchYear z))

theorem dateOfCount_succ (z : ℤ) : dateOfCount (z + 1) = (dateOfCount z).next := by
  have hlow := (marchYear_spec z).1
  have hlength := marchStart_succ (marchYear z)
  rcases marchYear_succ z with ⟨hyear, hlt⟩ | ⟨hyear, hlast⟩
  · have hday : z + 1 - marchStart (marchYear z) = z - marchStart (marchYear z) + 1 := by ring
    rw [dateOfCount, hyear, hday, dateOfCount, fromMarch_next (by omega)]
    rw [← hday]
    omega
  · rw [dateOfCount, hyear, ← hlast, sub_self, dateOfCount, fromMarch_last]
    omega

/-- 1970-01-01 is day 719468 of the count. -/
theorem dateOfCount_day (n : ℕ) : dateOfCount (n + 719468) = ofDay n := by
  induction n with
  | zero => decide +kernel
  | succ n ih =>
    rw [ofDay_succ, ← ih, ← dateOfCount_succ]
    push_cast
    ring_nf

/-- The formula computes the date of the count, cut to the width of the results. -/
theorem utcDateAfterDays_eq {now : ℕ} {additionalDays z : ℤ}
    (hz : (now : ℤ) / 86400 + additionalDays + 719468 = z) (hnonneg : 0 ≤ z) :
    utcDateAfterDays now additionalDays =
      ⟨asI32 (dateOfCount z).year, asU8 (dateOfCount z).month, asU8 (dateOfCount z).day⟩ := by
  have hdays : (now : ℤ).tdiv 86400 + additionalDays + 719468 = z := by
    rw [Int.tdiv_eq_ediv_of_nonneg (Int.natCast_nonneg now), hz]
  have hera : z.tdiv 146097 = z / 146097 := Int.tdiv_eq_ediv_of_nonneg hnonneg
  have hdoe : z - z / 146097 * 146097 = z % 146097 := by omega
  have hdoe0 : 0 ≤ z % 146097 := Int.emod_nonneg z (by norm_num)
  have hlt : z % 146097 < 146097 := Int.emod_lt_of_pos z (by norm_num)
  have hyoe : (z % 146097 - (z % 146097).tdiv 1460 + (z % 146097).tdiv 36524 -
      (z % 146097).tdiv 146096).tdiv 365 = marchYear z - z / 146097 * 400 := by
    simp only [Int.tdiv_eq_ediv_of_nonneg hdoe0]
    rw [Int.tdiv_eq_ediv_of_nonneg (by omega), marchYear]
    ring
  have hyear0 : 0 ≤ marchYear z - z / 146097 * 400 := by
    simp only [marchYear]
    omega
  have hyear400 : marchYear z - z / 146097 * 400 < 400 := by
    simp only [marchYear]
    omega
  have hstart : z % 146097 - (365 * (marchYear z - z / 146097 * 400) +
      (marchYear z - z / 146097 * 400) / 4 - (marchYear z - z / 146097 * 400) / 100) =
      z - marchStart (marchYear z) := by
    have hshift := marchStart_era (marchYear z - z / 146097 * 400) (z / 146097)
    rw [sub_add_cancel] at hshift
    rw [hshift, marchStart]
    omega
  simp only [utcDateAfterDays, hdays, if_pos hnonneg, hera, hdoe, hyoe,
    Int.tdiv_eq_ediv_of_nonneg hyear0, hstart, sub_add_cancel, dateOfCount]

theorem year_ofDay_mono : Monotone fun n => (ofDay n).year := by
  refine monotone_nat_of_le_succ fun n => ?_
  simp only [ofDay_succ, next]
  split_ifs <;> simp

/-- A date of the calendar whose year is a 32-bit number is not changed by the conversions. -/
theorem asI32_ofDay {n : ℕ} (hyear : (ofDay n).year < 2 ^ 31) :
    (⟨asI32 (ofDay n).year, asU8 (ofDay n).month,
      asU8 (ofDay n).day⟩ : CivilDate) = ofDay n := by
  have hvalid := CivilDate.valid_ofDay n
  have hfirst : 1970 ≤ (ofDay n).year := year_ofDay_mono (Nat.zero_le n)
  have hday : (ofDay n).day ≤ 31 := by
    refine hvalid.day_le.trans ?_
    unfold daysInMonth
    split_ifs <;> norm_num
  have hy : asI32 (ofDay n).year = (ofDay n).year :=
    Int.bmod_eq_of_le (by norm_num; omega) (by norm_num; omega)
  have hm : asU8 (ofDay n).month = (ofDay n).month :=
    Int.emod_eq_of_lt (by linarith [hvalid.month_pos]) (by linarith [hvalid.month_le])
  have hd : asU8 (ofDay n).day = (ofDay n).day :=
    Int.emod_eq_of_lt (by linarith [hvalid.day_pos]) (by linarith)
  rw [hy, hm, hd]

theorem utcDateAfterDays_of_count {now n : ℕ} {additionalDays : ℤ}
    (hn : (now : ℤ) / 86400 + additionalDays = n) (hyear : (ofDay n).year < 2 ^ 31) :
    utcDateAfterDays now additionalDays = ofDay n := by
  rw [utcDateAfterDays_eq (congrArg (· + 719468) hn) (by positivity), dateOfCount_day,
    asI32_ofDay hyear]

/-! ### The validity of a leaf -/

/-- The second in which a date begins (`date_time_ymd`, and `timestamp` of the parsed time). -/
def timestamp (date : CivilDate) : ℤ := 86400 * date.dayNumber

/-- The leaf that `issue_from_csr` has signed; the clock is read once for each of the dates. -/
def issuedLeaf (first last : ℕ) (deviceUuid : Text) (serial : Bytes) : Certificate :=
  { deviceLeaf 0 deviceUuid serial with
    notBefore := (timestamp (utcDateAfterDays first 0)).toNat
    notAfter := (timestamp (utcDateAfterDays last 30)).toNat }

theorem timestamp_ofDay (n : ℕ) : (timestamp (ofDay n)).toNat = n * 86400 := by
  rw [timestamp, CivilDate.dayNumber_ofDay]
  omega

/-- The two dates of a leaf, if they are computed on the same day. -/
theorem utcDateAfterDays_leaf {first last : ℕ} (hday : first / 86400 = last / 86400)
    (hyear : (ofDay (first / 86400 + 30)).year < 2 ^ 31) :
    utcDateAfterDays first 0 = ofDay (first / 86400) ∧
      utcDateAfterDays last 30 = ofDay (first / 86400 + 30) := by
  constructor
  · refine utcDateAfterDays_of_count (by push_cast; ring) ?_
    exact (year_ofDay_mono (Nat.le_add_right _ 30)).trans_lt hyear
  · exact utcDateAfterDays_of_count (by rw [hday]; push_cast; ring) hyear

/-- If both dates are computed on the same day, the leaf is that of the day. -/
theorem issuedLeaf_eq_deviceLeaf {first last : ℕ} (hday : first / 86400 = last / 86400)
    (hyear : (ofDay (first / 86400 + 30)).year < 2 ^ 31) (deviceUuid : Text)
    (serial : Bytes) :
    issuedLeaf first last deviceUuid serial = deviceLeaf (first / 86400) deviceUuid serial := by
  obtain ⟨hbefore, hafter⟩ := utcDateAfterDays_leaf hday hyear
  simp only [issuedLeaf, deviceLeaf, hbefore, hafter, timestamp_ofDay]

/-- The dates of a credential are those of the proleptic Gregorian calendar, and a leaf whose dates
are computed on one day is valid for exactly 30 days, which the agent's check admits. -/
theorem utcDateAfterDays_civil :
    (∀ (now n : ℕ) (additionalDays : ℤ), (now : ℤ) / 86400 + additionalDays = n →
      (CivilDate.ofDay n).year < 2 ^ 31 →
      utcDateAfterDays now additionalDays = CivilDate.ofDay n) ∧
    CivilDate.ofDay 0 = ⟨1970, 1, 1⟩ ∧
    (∀ n, CivilDate.ofDay (n + 1) = (CivilDate.ofDay n).next) ∧
    (∀ (first last : ℕ) (deviceUuid : Text) (serial : Bytes), first / 86400 = last / 86400 →
      (CivilDate.ofDay (first / 86400 + 30)).year < 2 ^ 31 →
      timestamp (utcDateAfterDays last 30) =
        timestamp (utcDateAfterDays first 0) + 30 * 86400 ∧
      ¬30 * 86400 < (issuedLeaf first last deviceUuid serial).notAfter -
        (issuedLeaf first last deviceUuid serial).notBefore) := by
  refine ⟨fun now n additionalDays => utcDateAfterDays_of_count, rfl, CivilDate.ofDay_succ, ?_⟩
  intro first last deviceUuid serial hday hyear
  obtain ⟨hbefore, hafter⟩ := utcDateAfterDays_leaf hday hyear
  constructor
  · rw [hbefore, hafter, timestamp, timestamp, CivilDate.dayNumber_ofDay,
      CivilDate.dayNumber_ofDay]
    push_cast
    ring
  · rw [issuedLeaf_eq_deviceLeaf hday hyear]
    simp only [deviceLeaf]
    omega

end Wdlp
