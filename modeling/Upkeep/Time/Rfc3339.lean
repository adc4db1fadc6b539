/-
# Timestamps as text

The calendar date and the time of day in universal time, joined by a `T`. The fraction of the
second has none, three, six or nine digits, the fewest that are exact. A year outside the four
digits of the standard carries its sign. The zone is written as `Z` or as `+00:00`; both name
universal time.
-/

import Upkeep.Time.Calendar
import Upkeep.Time.Timestamp

namespace Upkeep.Timestamp

/-- The decimal digits of a number, filled up with zeros in front to a width. -/
def padded (width n : Nat) : String :=
  let digits := Nat.toDigits 10 n
  String.ofList (List.replicate (width - digits.length) '0' ++ digits)

/-- The year of a date. -/
def yearText (year : Int) : String :=
  match year with
  | .ofNat n => if n ≤ 9999 then padded 4 n else "+" ++ padded 4 n
  | .negSucc n => "-" ++ padded 4 (n + 1)

/-- The fraction of a second, with its point. -/
def fractionText (nanos : Nat) : String :=
  if nanos = 0 then ""
  else if nanos % 1000000 = 0 then "." ++ padded 3 (nanos / 1000000)
  else if nanos % 1000 = 0 then "." ++ padded 6 (nanos / 1000)
  else "." ++ padded 9 nanos

/-- Date and time of day, without a zone. -/
def localText (t : Timestamp) : String :=
  let date := CalendarDate.ofDays (t.seconds / 86400)
  let second := (t.seconds % 86400).toNat
  yearText date.year ++ "-" ++ padded 2 date.month ++ "-" ++ padded 2 date.day ++ "T" ++
    padded 2 (second / 3600) ++ ":" ++ padded 2 (second / 60 % 60) ++ ":" ++
    padded 2 (second % 60) ++ fractionText t.subsecond

/-- The text of a moment with the zone `Z`. -/
def rfc3339 (t : Timestamp) : String :=
  t.localText ++ "Z"

/-- The text of a moment with the zone as an offset. -/
def rfc3339Offset (t : Timestamp) : String :=
  t.localText ++ "+00:00"

end Upkeep.Timestamp
