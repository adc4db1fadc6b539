/-
# Days of the calendar

The Gregorian calendar, extended to all years before and after its introduction. Years are
counted from March, so that the leap day is the last day of a year and the days before a month
follow one linear rule.
-/

namespace Upkeep

/-- A day of the calendar; months and days count from one. -/
structure CalendarDate where
  year : Int
  month : Nat
  day : Nat
deriving DecidableEq, Repr

namespace CalendarDate

/-- The day that lies a number of days after the first of January 1970. Four hundred years, an
*era*, have 146097 days; within one, the leap days up to a day follow from its number. -/
def ofDays (days : Int) : CalendarDate :=
  let shifted := days + 719468
  let era := shifted / 146097
  let dayOfEra := (shifted % 146097).toNat
  let yearOfEra :=
    (dayOfEra - dayOfEra / 1460 + dayOfEra / 36524 - dayOfEra / 146096) / 365
  let dayOfYear := dayOfEra - (365 * yearOfEra + yearOfEra / 4 - yearOfEra / 100)
  let marchMonth := (5 * dayOfYear + 2) / 153
  let day := dayOfYear - (153 * marchMonth + 2) / 5 + 1
  let month := if marchMonth < 10 then marchMonth + 3 else marchMonth - 9
  let year := era * 400 + Int.ofNat yearOfEra + (if month ≤ 2 then 1 else 0)
  ⟨year, month, day⟩

end CalendarDate

end Upkeep
