/-
# The calendar by its rules

The calendar is known by two rules: how long each month of a year is, and that every fourth year
has a leap day, except for three in four centuries. From these the days up to a date are counted
one year and one month after the other. The date that is computed for a day, by a shift of the
year to March and divisions of what is left of an era, is a date of this calendar, and counting
gives the day back. So no two days have one date.
-/

import Mathlib.Tactic.IntervalCases
import Upkeep.Time.Calendar

namespace Upkeep.CalendarDate

/-! ## The rules -/

/-- The leap days of a year, one or none. -/
def leapDays (year : Int) : Nat :=
  if year % 4 = 0 ∧ (year % 100 ≠ 0 ∨ year % 400 = 0) then 1 else 0

/-- The days of a month. -/
def monthLength (year : Int) (month : Nat) : Nat :=
  if month = 2 then 28 + leapDays year
  else if month ∈ [4, 6, 9, 11] then 30
  else 31

theorem monthLength_le (year : Int) (month : Nat) : monthLength year month ≤ 31 := by
  have hleap : leapDays year ≤ 1 := by
    unfold leapDays
    split <;> decide
  unfold monthLength
  split
  · omega
  · split <;> decide

/-- A day that the calendar has. -/
structure IsValid (date : CalendarDate) : Prop where
  month_pos : 1 ≤ date.month
  month_le : date.month ≤ 12
  day_pos : 1 ≤ date.day
  day_le : date.day ≤ monthLength date.year date.month

instance (date : CalendarDate) : Decidable date.IsValid :=
  decidable_of_iff (1 ≤ date.month ∧ date.month ≤ 12 ∧ 1 ≤ date.day ∧
      date.day ≤ monthLength date.year date.month)
    ⟨fun ⟨h₁, h₂, h₃, h₄⟩ => ⟨h₁, h₂, h₃, h₄⟩, fun ⟨h₁, h₂, h₃, h₄⟩ => ⟨h₁, h₂, h₃, h₄⟩⟩

/-- The days of all years before a year, counted from the beginning of the first one. -/
def daysBeforeYear (year : Int) : Int :=
  365 * (year - 1) + (year - 1) / 4 - (year - 1) / 100 + (year - 1) / 400

/-- The days of all months of a year before a month. -/
def daysBeforeMonth (year : Int) (month : Nat) : Nat :=
  ((List.range' 1 (month - 1)).map (monthLength year)).sum

/-- The days from the first of January 1970 to a date, counted by the rules. -/
def number (date : CalendarDate) : Int :=
  daysBeforeYear date.year + daysBeforeMonth date.year date.month + date.day - 1 -
    daysBeforeYear 1970

/-- A year takes 365 days and its leap days. -/
theorem daysBeforeYear_succ (year : Int) :
    daysBeforeYear (year + 1) = daysBeforeYear year + 365 + leapDays year := by
  unfold daysBeforeYear leapDays
  split <;> omega

theorem daysBeforeMonth_succ (year : Int) {month : Nat} (hmonth : 1 ≤ month) :
    daysBeforeMonth year (month + 1) = daysBeforeMonth year month + monthLength year month := by
  obtain ⟨k, rfl⟩ := Nat.exists_eq_add_of_le' hmonth
  simp only [daysBeforeMonth, Nat.add_sub_cancel, List.range'_1_concat, List.map_append,
    List.sum_append, List.map_cons, List.map_nil, List.sum_singleton, Nat.add_comm 1 k]

/-- From March on, a month is as long as the linear rule takes it to be. -/
theorem monthLength_march (year : Int) {m : Nat} (hm : m < 10) :
    monthLength year (m + 3) + (153 * m + 2) / 5 = (153 * (m + 1) + 2) / 5 := by
  interval_cases m <;> rfl

/-- So the rule tells the days before a month as well. -/
theorem daysBeforeMonth_march (year : Int) {m : Nat} (hm : m < 10) :
    daysBeforeMonth year (m + 3) = 59 + leapDays year + (153 * m + 2) / 5 := by
  induction m with
  | zero =>
      show 31 + (28 + leapDays year + 0) = _
      omega
  | succ m ih =>
      have hlength := monthLength_march year (Nat.lt_of_succ_lt hm)
      rw [Nat.add_right_comm, daysBeforeMonth_succ year (by omega), ih (Nat.lt_of_succ_lt hm)]
      omega

/-! ## An era -/

/-- A day of an era by its century, its group of four years, its year in this group, and the
days of this year, which begins in March. A leap day ends the last year of its group, and in the
last group of a century only the last century has one. -/
structure EraDay where
  century : Nat
  group : Nat
  rest : Nat
  day : Nat
  century_lt : century < 4
  group_lt : group < 25
  rest_lt : rest < 4
  day_le : day ≤ 365
  leap : day = 365 → rest = 3 ∧ (group = 24 → century = 3)

namespace EraDay

/-- The number of a day in its era. -/
def dayOfEra (d : EraDay) : Nat :=
  36524 * d.century + 1461 * d.group + 365 * d.rest + d.day

/-- The number of its year in its era. -/
def yearOfEra (d : EraDay) : Nat :=
  100 * d.century + 4 * d.group + d.rest

theorem exists_dayOfEra_eq {n : Nat} (hn : n < 146097) : ∃ d : EraDay, d.dayOfEra = n := by
  by_cases hlast : n = 146096
  · exact ⟨⟨3, 24, 3, 365, by decide, by decide, by decide, by decide, by decide⟩, hlast.symm⟩
  · refine ⟨⟨n / 36524, n % 36524 / 1461, min (n % 36524 % 1461 / 365) 3,
      n % 36524 % 1461 - 365 * min (n % 36524 % 1461 / 365) 3, ?_, ?_, ?_, ?_, ?_⟩, ?_⟩
    case refine_6 => simp only [dayOfEra]; omega
    all_goals omega

variable (d : EraDay)

/-- The leap days before a day, and the era's last day, are where the quotients say. -/
theorem yearOfEra_eq :
    (d.dayOfEra - d.dayOfEra / 1460 + d.dayOfEra / 36524 - d.dayOfEra / 146096) / 365 =
      d.yearOfEra := by
  obtain ⟨century, group, rest, day, hcentury, hgroup, hrest, hday, hleap⟩ := d
  simp only [dayOfEra, yearOfEra]
  generalize hn : 36524 * century + 1461 * group + 365 * rest + day = n
  have hera : n / 146096 = if n = 146096 then 1 else 0 := by split <;> omega
  have hcent : n / 36524 = if n = 146096 then 4 else century := by split <;> omega
  rw [hera, hcent]
  subst hn
  interval_cases century <;> interval_cases rest <;> split <;> omega

theorem daysBefore_yearOfEra :
    365 * d.yearOfEra + d.yearOfEra / 4 - d.yearOfEra / 100 =
      36524 * d.century + 1461 * d.group + 365 * d.rest := by
  obtain ⟨century, group, rest, day, hcentury, hgroup, hrest, hday, hleap⟩ := d
  simp only [yearOfEra]
  omega

/-- The month, counted from March. -/
def marchMonth : Nat :=
  (5 * d.day + 2) / 153

/-- The date of a day of an era. -/
def date (era : Int) : CalendarDate where
  year := era * 400 + d.yearOfEra + if d.marchMonth < 10 then 0 else 1
  month := if d.marchMonth < 10 then d.marchMonth + 3 else d.marchMonth - 9
  day := d.day - (153 * d.marchMonth + 2) / 5 + 1

/-- A year that begins with March ends with the leap day of the next one. -/
theorem leapDays_of_day_eq (era : Int) (hday : d.day = 365) :
    leapDays (era * 400 + d.yearOfEra + 1) = 1 := by
  obtain ⟨hrest, hgroup⟩ := d.leap hday
  have hcentury := d.century_lt
  have hlt := d.group_lt
  unfold leapDays yearOfEra
  rw [if_pos]
  omega

theorem daysBeforeYear_yearOfEra (era : Int) :
    daysBeforeYear (era * 400 + d.yearOfEra + 1) =
      146097 * era + (36524 * d.century + 1461 * d.group + 365 * d.rest : Nat) := by
  obtain ⟨century, group, rest, day, hcentury, hgroup, hrest, hday, hleap⟩ := d
  simp only [yearOfEra, daysBeforeYear]
  omega

/-- The days of a month of the year that begins with March. -/
theorem marchMonth_bounds : d.marchMonth ≤ 11 ∧ 153 * d.marchMonth ≤ 5 * d.day + 2 ∧
    5 * d.day + 2 < 153 * (d.marchMonth + 1) := by
  have hday := d.day_le
  unfold marchMonth
  omega

/-- From March to December a day is in the calendar year in which its own year began. -/
theorem date_of_lt (era : Int) (hmonth : d.marchMonth < 10) :
    d.date era = ⟨era * 400 + d.yearOfEra, d.marchMonth + 3,
      d.day - (153 * d.marchMonth + 2) / 5 + 1⟩ := by
  rw [date, if_pos hmonth, if_pos hmonth, Int.add_zero]

/-- In January and February it is in the next one. -/
theorem date_of_le (era : Int) (hmonth : 10 ≤ d.marchMonth) :
    d.date era = ⟨era * 400 + d.yearOfEra + 1, d.marchMonth - 9,
      d.day - (153 * d.marchMonth + 2) / 5 + 1⟩ := by
  rw [date, if_neg (Nat.not_lt.2 hmonth), if_neg (Nat.not_lt.2 hmonth)]

theorem isValid_date (era : Int) : (d.date era).IsValid := by
  have hday := d.day_le
  have hleap := d.leapDays_of_day_eq era
  obtain ⟨hmonth, hlow, hhigh⟩ := d.marchMonth_bounds
  rcases Nat.lt_or_ge d.marchMonth 10 with hearly | hlate
  · have hlength := monthLength_march (era * 400 + d.yearOfEra) hearly
    rw [d.date_of_lt era hearly]
    exact ⟨by dsimp only; omega, by dsimp only; omega, Nat.succ_pos _, by dsimp only; omega⟩
  · rw [d.date_of_le era hlate]
    refine ⟨by dsimp only; omega, by dsimp only; omega, Nat.succ_pos _, ?_⟩
    generalize d.marchMonth = m at *
    interval_cases m
    · show d.day - 306 + 1 ≤ 31
      omega
    · show d.day - 337 + 1 ≤ 28 + leapDays (era * 400 + d.yearOfEra + 1)
      omega

theorem number_date (era : Int) :
    (d.date era).number + 719468 = 146097 * era + d.dayOfEra := by
  have hstart := d.daysBeforeYear_yearOfEra era
  have hyear := daysBeforeYear_succ (era * 400 + d.yearOfEra)
  have hepoch : daysBeforeYear 1970 = 719162 := by decide
  obtain ⟨hmonth, hlow, hhigh⟩ := d.marchMonth_bounds
  rcases Nat.lt_or_ge d.marchMonth 10 with hearly | hlate
  · have hmarch := daysBeforeMonth_march (era * 400 + d.yearOfEra) hearly
    rw [d.date_of_lt era hearly, number, dayOfEra, hepoch]
    dsimp only
    omega
  · have hjanuary (year : Int) : daysBeforeMonth year 1 = 0 := rfl
    have hfebruary (year : Int) : daysBeforeMonth year 2 = 31 := rfl
    rw [d.date_of_le era hlate, number, dayOfEra, hepoch]
    generalize d.marchMonth = m at *
    interval_cases m
    · simp only [hjanuary]
      omega
    · simp only [hfebruary]
      omega

end EraDay

/-! ## The date of a day -/

/-- The date of a day is that of its place in an era. -/
theorem exists_ofDays_eq (days : Int) :
    ∃ (era : Int) (d : EraDay), days + 719468 = 146097 * era + d.dayOfEra ∧
      ofDays days = d.date era := by
  have hlt : ((days + 719468) % 146097).toNat < 146097 := by omega
  obtain ⟨d, hd⟩ := EraDay.exists_dayOfEra_eq hlt
  have hday : d.dayOfEra - (365 * d.yearOfEra + d.yearOfEra / 4 - d.yearOfEra / 100) = d.day := by
    rw [d.daysBefore_yearOfEra, EraDay.dayOfEra, Nat.add_sub_cancel_left]
  refine ⟨(days + 719468) / 146097, d, by omega, ?_⟩
  rw [ofDays]
  simp only [← hd, d.yearOfEra_eq, hday]
  rw [EraDay.date, EraDay.marchMonth]
  by_cases hmonth : (5 * d.day + 2) / 153 < 10
  · simp [hmonth]
  · have hlast : (5 * d.day + 2) / 153 ≤ 11 := d.marchMonth_bounds.1
    simp [hmonth]
    omega

/-- Every day has a date of the calendar. -/
theorem isValid_ofDays (days : Int) : (ofDays days).IsValid := by
  obtain ⟨era, d, -, hdate⟩ := exists_ofDays_eq days
  rw [hdate]
  exact d.isValid_date era

/-- Counting the days up to the date of a day gives this day. -/
theorem number_ofDays (days : Int) : (ofDays days).number = days := by
  obtain ⟨era, d, hdays, hdate⟩ := exists_ofDays_eq days
  have hnumber := d.number_date era
  rw [hdate]
  omega

end Upkeep.CalendarDate
