/-
# Moments read back

A reader of date and time with a zone: the year has four digits, or a sign and at least four of
them, the day must be one of the calendar, and the fraction of the second may have any number of
digits up to nanoseconds. A moment is the number of nanoseconds that the calendar, the clock and
the zone together count from the beginning of 1970. What is written for a moment is read as this
moment to the nanosecond, whichever of its spellings the fraction has, so no two moments are
written alike.
-/

import Upkeep.Proofs.Time.Calendar
import Upkeep.Time.Rfc3339

namespace Upkeep.Timestamp

/-! ## The reader -/

/-- Reads a given character. -/
def readMark (mark : Char) : List Char → Option (List Char)
  | [] => none
  | c :: rest => if c = mark then some rest else none

/-- Reads so many digits. -/
def readDigits (width : Nat) (chars : List Char) : Option (Nat × List Char) :=
  let digits := chars.take width
  if digits.length = width ∧ digits.all Char.isDigit then
    some (Nat.ofDigitChars 10 digits 0, chars.drop width)
  else none

/-- Reads all digits that follow, of which there must be four or more. -/
def readLongYear (chars : List Char) : Option (Nat × List Char) :=
  let digits := chars.takeWhile Char.isDigit
  if 4 ≤ digits.length then
    some (Nat.ofDigitChars 10 digits 0, chars.dropWhile Char.isDigit)
  else none

/-- Reads a year. One with a sign may be longer than four digits. -/
def readYear : List Char → Option (Int × List Char)
  | '-' :: rest => (readLongYear rest).map fun read => (-(read.1 : Int), read.2)
  | '+' :: rest => (readLongYear rest).map fun read => (read.1, read.2)
  | chars => (readDigits 4 chars).map fun read => (read.1, read.2)

/-- Reads the fraction of a second, if there is one, in nanoseconds. -/
def readFraction : List Char → Option (Nat × List Char)
  | '.' :: rest =>
    let digits := rest.takeWhile Char.isDigit
    if 1 ≤ digits.length ∧ digits.length ≤ 9 then
      some (Nat.ofDigitChars 10 digits 0 * 10 ^ (9 - digits.length),
        rest.dropWhile Char.isDigit)
    else none
  | chars => some (0, chars)

/-- Reads hours and minutes, in minutes. -/
def readHoursMinutes (chars : List Char) : Option (Nat × List Char) := do
  let (hours, rest) ← readDigits 2 chars
  let (minutes, rest) ← readDigits 2 (← readMark ':' rest)
  if hours < 24 ∧ minutes < 60 then some (hours * 60 + minutes, rest) else none

/-- Reads a zone, as the minutes that its clocks are ahead. -/
def readZone : List Char → Option (Int × List Char)
  | 'Z' :: rest => some (0, rest)
  | '+' :: rest => (readHoursMinutes rest).map fun read => (read.1, read.2)
  | '-' :: rest => (readHoursMinutes rest).map fun read => (-(read.1 : Int), read.2)
  | _ => none

/-- Reads a date of the calendar. -/
def readDate (chars : List Char) : Option (CalendarDate × List Char) := do
  let (year, rest) ← readYear chars
  let (month, rest) ← readDigits 2 (← readMark '-' rest)
  let (day, rest) ← readDigits 2 (← readMark '-' rest)
  let date : CalendarDate := ⟨year, month, day⟩
  if date.IsValid then some (date, rest) else none

/-- Reads a time of day, in nanoseconds since midnight. -/
def readClock (chars : List Char) : Option (Nat × List Char) := do
  let (minutes, rest) ← readHoursMinutes chars
  let (second, rest) ← readDigits 2 (← readMark ':' rest)
  let (nanos, rest) ← readFraction rest
  if second < 60 then some ((minutes * 60 + second) * 1000000000 + nanos, rest) else none

/-- The moment that a text names, in nanoseconds since the beginning of 1970. -/
def readRfc3339 (text : String) : Option Int := do
  let (date, rest) ← readDate text.toList
  let (clock, rest) ← readClock (← readMark 'T' rest)
  let (ahead, rest) ← readZone rest
  if rest.isEmpty then some ((date.number * 86400 - ahead * 60) * 1000000000 + clock) else none

/-! ## Digits -/

section Digits

variable {width n : Nat} {rest : List Char}

theorem toList_padded (width n : Nat) :
    (padded width n).toList =
      List.replicate (width - (Nat.toDigits 10 n).length) '0' ++ Nat.toDigits 10 n := by
  rw [padded, String.toList_ofList]

theorem all_isDigit_padded (width n : Nat) : (padded width n).toList.all Char.isDigit = true := by
  rw [toList_padded, List.all_append, Bool.and_eq_true]
  refine ⟨?_, List.all_eq_true.2 fun c hc => ?_⟩
  · simp
  · exact Nat.isDigit_of_mem_toDigits (by decide) (by decide) hc

theorem length_padded (hfits : n < 10 ^ width) (hwidth : 0 < width) :
    (padded width n).toList.length = width := by
  have hlength := (Nat.length_toDigits_le_iff (by decide) hwidth).2 hfits
  rw [toList_padded, List.length_append, List.length_replicate]
  omega

theorem ofDigitChars_padded (width n : Nat) :
    Nat.ofDigitChars 10 (padded width n).toList 0 = n := by
  rw [toList_padded, Nat.ofDigitChars_append, Nat.ofDigitChars_replicate_zero, Nat.mul_zero,
    Nat.ofDigitChars_ten_toDigits]

/-- A number that is filled up to a width is read back. -/
theorem readDigits_padded (hfits : n < 10 ^ width) (hwidth : 0 < width) (rest : List Char) :
    readDigits width ((padded width n).toList ++ rest) = some (n, rest) := by
  have hlength := length_padded hfits hwidth
  rw [readDigits]
  simp only [List.take_left' hlength, List.drop_left' hlength, hlength, all_isDigit_padded,
    ofDigitChars_padded]
  rfl

theorem le_length_padded (width n : Nat) : width ≤ (padded width n).toList.length := by
  rw [toList_padded, List.length_append, List.length_replicate]
  omega

/-- What may follow digits that are read as far as they go. -/
def EndsDigits (rest : List Char) : Prop :=
  ∀ c ∈ rest.head?, c.isDigit = false

theorem takeWhile_padded (width n : Nat) (hends : EndsDigits rest) :
    ((padded width n).toList ++ rest).takeWhile Char.isDigit = (padded width n).toList := by
  have hdigits := List.all_eq_true.1 (all_isDigit_padded width n)
  rw [List.takeWhile_append_of_pos hdigits]
  cases rest with
  | nil => simp
  | cons c rest => simp [hends c rfl]

theorem dropWhile_padded (width n : Nat) (hends : EndsDigits rest) :
    ((padded width n).toList ++ rest).dropWhile Char.isDigit = rest := by
  have hdigits := List.all_eq_true.1 (all_isDigit_padded width n)
  rw [List.dropWhile_append_of_pos hdigits]
  cases rest with
  | nil => rfl
  | cons c rest => simp [hends c rfl]

end Digits

/-! ## The parts -/

section Parts

variable {rest : List Char}

/-- A text of one character stands in front as this character. -/
theorem toList_mark_append {mark : String} {c : Char} (hmark : mark.toList = [c]) (text : String) :
    (mark ++ text).toList ++ rest = c :: (text.toList ++ rest) := by
  simp [hmark]

theorem readMark_cons (mark : Char) (rest : List Char) : readMark mark (mark :: rest) = some rest :=
  if_pos rfl

theorem readLongYear_padded (n : Nat) (hends : EndsDigits rest) :
    readLongYear ((padded 4 n).toList ++ rest) = some (n, rest) := by
  rw [readLongYear, takeWhile_padded 4 n hends, dropWhile_padded 4 n hends,
    if_pos (le_length_padded 4 n), ofDigitChars_padded]

/-- A year that begins with a digit has four of them. -/
theorem readYear_of_digit {c : Char} {chars : List Char} (hdigit : c.isDigit = true) :
    readYear (c :: chars) =
      (readDigits 4 (c :: chars)).map fun read => ((read.1 : Int), read.2) := by
  unfold readYear
  split
  next heq =>
    cases heq
    exact absurd hdigit (by decide)
  next heq =>
    cases heq
    exact absurd hdigit (by decide)
  next => rfl

theorem exists_padded_eq_cons {width : Nat} (n : Nat) (hwidth : 0 < width) :
    ∃ c chars, (padded width n).toList = c :: chars ∧ c.isDigit = true := by
  have hdigits := List.all_eq_true.1 (all_isDigit_padded width n)
  have hlength := le_length_padded width n
  cases hlist : (padded width n).toList with
  | nil =>
    rw [hlist] at hlength
    exact absurd hlength (Nat.not_le.2 hwidth)
  | cons c chars => exact ⟨c, chars, rfl, hdigits c (hlist ▸ List.mem_cons_self)⟩

/-- Every year is read back, of whatever length and sign. -/
theorem readYear_yearText (year : Int) (hends : EndsDigits rest) :
    readYear ((yearText year).toList ++ rest) = some (year, rest) := by
  cases year with
  | ofNat n =>
    by_cases hshort : n ≤ 9999
    · obtain ⟨c, chars, hlist, hdigit⟩ := exists_padded_eq_cons n (by decide : 0 < 4)
      have hread := readDigits_padded (by omega : n < 10 ^ 4) (by decide) rest
      rw [hlist, List.cons_append] at hread
      rw [yearText, if_pos hshort, hlist, List.cons_append, readYear_of_digit hdigit, hread]
      rfl
    · rw [yearText, if_neg hshort, toList_mark_append (c := '+') rfl, readYear,
        readLongYear_padded n hends]
      rfl
  | negSucc n =>
    rw [yearText, toList_mark_append (c := '-') rfl, readYear, readLongYear_padded (n + 1) hends]
    rfl

/-- A fraction is read back from the digits that are kept of it. -/
theorem readFraction_point {width n : Nat} (hwidth : 1 ≤ width) (hwidth' : width ≤ 9)
    (hfits : n < 10 ^ width) (hends : EndsDigits rest) :
    readFraction (("." ++ padded width n).toList ++ rest) = some (n * 10 ^ (9 - width), rest) := by
  rw [toList_mark_append (c := '.') rfl, readFraction, takeWhile_padded width n hends,
    dropWhile_padded width n hends, length_padded hfits hwidth, if_pos ⟨hwidth, hwidth'⟩,
    ofDigitChars_padded]

theorem readFraction_fractionText {nanos : Nat} (hnanos : nanos < 10 ^ 9)
    (hends : EndsDigits rest) (hpoint : rest.head? ≠ some '.') :
    readFraction ((fractionText nanos).toList ++ rest) = some (nanos, rest) := by
  unfold fractionText
  split
  next hzero =>
    subst hzero
    show readFraction rest = _
    unfold readFraction
    split
    next => exact absurd rfl hpoint
    next => rfl
  next =>
    split
    next hmilli =>
      rw [readFraction_point (by decide) (by decide) (by omega) hends]
      congr 2
      omega
    next =>
      split
      next hmicro =>
        rw [readFraction_point (by decide) (by decide) (by omega) hends]
        congr 2
        omega
      next =>
        rw [readFraction_point (by decide) (by decide) hnanos hends]
        congr 2
        omega

theorem EndsDigits.cons {c : Char} (hc : c.isDigit = false) : EndsDigits (c :: rest) := by
  simpa [EndsDigits] using hc

/-- A date of the calendar is read back. -/
theorem readDate_written {date : CalendarDate} (hvalid : date.IsValid) (rest : List Char) :
    readDate ((yearText date.year).toList ++ '-' :: ((padded 2 date.month).toList ++
        '-' :: ((padded 2 date.day).toList ++ rest))) = some (date, rest) := by
  have hmonth : date.month < 10 ^ 2 := by
    have := hvalid.month_le
    omega
  have hday : date.day < 10 ^ 2 := by
    have := hvalid.day_le.trans (CalendarDate.monthLength_le date.year date.month)
    omega
  simp [readDate, readYear_yearText date.year (.cons (by decide : '-'.isDigit = false)),
    readMark_cons, readDigits_padded hmonth, readDigits_padded hday, hvalid]

theorem readHoursMinutes_written {hours minutes : Nat} (hhours : hours < 24)
    (hminutes : minutes < 60) (rest : List Char) :
    readHoursMinutes ((padded 2 hours).toList ++ ':' :: ((padded 2 minutes).toList ++ rest)) =
      some (hours * 60 + minutes, rest) := by
  simp [readHoursMinutes, readMark_cons, readDigits_padded (by omega : hours < 10 ^ 2),
    readDigits_padded (by omega : minutes < 10 ^ 2), hhours, hminutes]

/-- A time of day is read back. -/
theorem readClock_written {second nanos : Nat} (hsecond : second < 86400)
    (hnanos : nanos < 10 ^ 9) (hends : EndsDigits rest) (hpoint : rest.head? ≠ some '.') :
    readClock ((padded 2 (second / 3600)).toList ++ ':' ::
        ((padded 2 (second / 60 % 60)).toList ++ ':' :: ((padded 2 (second % 60)).toList ++
          ((fractionText nanos).toList ++ rest)))) =
      some (second * 1000000000 + nanos, rest) := by
  have hlast : second % 60 < 60 := Nat.mod_lt _ (by decide)
  have hminutes := readHoursMinutes_written (by omega : second / 3600 < 24)
    (Nat.mod_lt (second / 60) (by decide : 0 < 60)) (':' :: ((padded 2 (second % 60)).toList ++
          ((fractionText nanos).toList ++ rest)))
  have htotal : (second / 3600 * 60 + second / 60 % 60) * 60 + second % 60 = second := by omega
  simp [readClock, hminutes, readMark_cons, readDigits_padded (by omega : second % 60 < 10 ^ 2),
    readFraction_fractionText hnanos hends hpoint, hlast, htotal]

end Parts

/-! ## Moments -/

/-- What stands behind date and time for universal time. -/
structure IsUniversal (zone : String) : Prop where
  read : readZone zone.toList = some (0, [])
  ends : EndsDigits zone.toList
  no_point : zone.toList.head? ≠ some '.'

theorem toList_localText_append (t : Timestamp) (zone : String) :
    (t.localText ++ zone).toList =
      (yearText (CalendarDate.ofDays (t.seconds / 86400)).year).toList ++ '-' ::
        ((padded 2 (CalendarDate.ofDays (t.seconds / 86400)).month).toList ++ '-' ::
          ((padded 2 (CalendarDate.ofDays (t.seconds / 86400)).day).toList ++ 'T' ::
            ((padded 2 ((t.seconds % 86400).toNat / 3600)).toList ++ ':' ::
              ((padded 2 ((t.seconds % 86400).toNat / 60 % 60)).toList ++ ':' ::
                ((padded 2 ((t.seconds % 86400).toNat % 60)).toList ++
                  ((fractionText t.subsecond).toList ++ zone.toList)))))) := by
  simp [localText]

/-- Date and time with the zone of universal time are read as the moment. -/
theorem readRfc3339_localText (t : Timestamp) {zone : String} (hzone : IsUniversal zone) :
    readRfc3339 (t.localText ++ zone) = some t.nanos := by
  have hsecond : (t.seconds % 86400).toNat < 86400 := by omega
  have hnanos : t.subsecond < 10 ^ 9 := by
    unfold subsecond
    omega
  rw [readRfc3339, toList_localText_append]
  simp only [readDate_written (CalendarDate.isValid_ofDays _), readMark_cons,
    readClock_written hsecond hnanos hzone.ends hzone.no_point, hzone.read,
    CalendarDate.number_ofDays, Option.bind_eq_bind, Option.bind_some, List.isEmpty_nil, if_true,
    Option.some.injEq]
  unfold seconds subsecond
  omega

/-- The text of a moment with an offset is read as this moment. -/
theorem readRfc3339_rfc3339Offset (t : Timestamp) : readRfc3339 t.rfc3339Offset = some t.nanos :=
  readRfc3339_localText t ⟨rfl, .cons rfl, by decide⟩

/-- No two moments are written alike. -/
theorem rfc3339Offset_injective : Function.Injective rfc3339Offset := by
  intro s t hsame
  have hread := readRfc3339_rfc3339Offset s
  rw [hsame, readRfc3339_rfc3339Offset] at hread
  exact ext (Option.some.inj hread).symm

end Upkeep.Timestamp
