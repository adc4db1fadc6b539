/-
# Reading numbers

Whole numbers are decimal digits behind an optional plus sign, and must lie below a bound.
Floating-point numbers have an optional sign, digits with at most one point among or beside
them, and an optional exponent; `inf`, `infinity` and `nan` are numbers too, in any letter case.
-/

namespace Upkeep.Decimal

/-- The value of a decimal digit. -/
def digitValue? (c : Char) : Option Nat :=
  if c.isDigit then some (c.toNat - 48) else none

/-- The number that a list of decimal digits stands for, behind those that gave `value`. -/
def digitsValue? (value : Nat) : List Char → Option Nat
  | [] => some value
  | c :: rest => (digitValue? c).bind fun d => digitsValue? (10 * value + d) rest

/-- The number that a nonempty list of decimal digits stands for. -/
def numeral? : List Char → Option Nat
  | [] => none
  | digits => digitsValue? 0 digits

/-- A whole number below `bound`: decimal digits, with an optional plus sign. -/
def natBelow? (bound : Nat) (text : String) : Option Nat :=
  let digits :=
    match text.toList with
    | '+' :: rest => rest
    | chars => chars
  (numeral? digits).filter (· < bound)

/-- A whole number with an optional sign, at least `low` and below `high`. -/
def intWithin? (low high : Int) (text : String) : Option Int :=
  let value :=
    match text.toList with
    | '+' :: rest => (numeral? rest).map Int.ofNat
    | '-' :: rest => (numeral? rest).map fun n => -Int.ofNat n
    | chars => (numeral? chars).map Int.ofNat
  value.filter fun n => low ≤ n && n < high

/-- The double nearest to `digits * 10 ^ power`. Powers beyond the range of doubles are settled
by magnitude alone, so that no huge power is ever computed. -/
def nearest (digits : Nat) (power : Int) : Float :=
  if digits = 0 then 0.0
  else
    let magnitude := power + (Nat.toDigits 10 digits).length
    if 400 < magnitude then 1.0 / 0.0
    else if magnitude < -400 then 0.0
    else
      match power with
      | .ofNat k => Float.ofScientific digits false k
      | .negSucc k => Float.ofScientific digits true (k + 1)

/-- The exponent that may stand behind the digits of a floating-point number. -/
def exponent? : List Char → Option Int
  | [] => some 0
  | mark :: rest =>
    if mark = 'e' ∨ mark = 'E' then
      match rest with
      | '+' :: digits => (numeral? digits).map Int.ofNat
      | '-' :: digits => (numeral? digits).map fun n => -Int.ofNat n
      | digits => (numeral? digits).map Int.ofNat
    else none

/-- A floating-point number without its sign. -/
def unsignedFloat? (chars : List Char) : Option Float :=
  let lower := (String.ofList chars).toLower
  if lower = "inf" ∨ lower = "infinity" then some (1.0 / 0.0)
  else if lower = "nan" then some (0.0 / 0.0)
  else
    let whole := chars.takeWhile Char.isDigit
    let behind := chars.dropWhile Char.isDigit
    let (fraction, tail) :=
      match behind with
      | '.' :: rest => (rest.takeWhile Char.isDigit, rest.dropWhile Char.isDigit)
      | rest => ([], rest)
    match numeral? (whole ++ fraction), exponent? tail with
    | some digits, some power => some (nearest digits (power - fraction.length))
    | _, _ => none

/-- A floating-point number. -/
def float? (text : String) : Option Float :=
  match text.toList with
  | '-' :: rest => (unsignedFloat? rest).map fun x => -x
  | '+' :: rest => unsignedFloat? rest
  | chars => unsignedFloat? chars

end Upkeep.Decimal
