/-
# Decimal text of floating-point numbers

The digits of a number are settled by `shortest`; a `Layout` settles how they are set out. The
three layouts of this library differ only in the range of magnitudes that is written without an
exponent, in whether a whole number keeps a fraction, and in the sign of a positive exponent.
-/

import Upkeep.Decimal.Dyadic
import Upkeep.Decimal.Shortest

namespace Upkeep.Decimal

/-- The choices that a decimal text leaves open once its digits are known. The magnitude of a
number is the power of ten of its first digit. -/
structure Layout where
  /-- Which magnitudes are written without an exponent. -/
  isPositional : Int → Bool
  /-- Whether a whole number is followed by `.0`. -/
  keepsFraction : Bool
  /-- What stands between the digits and a nonnegative exponent. -/
  exponentMark : String

namespace Layout

/-- Never an exponent, and no fraction on a whole number. -/
def plain : Layout := ⟨fun _ => true, false, "e"⟩

/-- An exponent from `1e16` up and below `1e-4`; a whole number keeps its fraction. -/
def detailed : Layout := ⟨fun power => -4 ≤ power && power < 16, true, "e"⟩

/-- An exponent from `1e+16` up and below `1e-5`; a whole number keeps its fraction. -/
def data : Layout := ⟨fun power => -5 ≤ power && power < 16, true, "e+"⟩

/-- The digits of a positive number without an exponent. -/
def positional (layout : Layout) (digits : List Char) (power : Int) : String :=
  let fractionless := if layout.keepsFraction then ".0" else ""
  match power with
  | .ofNat k => String.ofList (digits ++ List.replicate k '0') ++ fractionless
  | .negSucc k =>
    let places := k + 1
    if places < digits.length then
      String.ofList (digits.take (digits.length - places)) ++ "." ++
        String.ofList (digits.drop (digits.length - places))
    else
      "0." ++ String.ofList (List.replicate (places - digits.length) '0' ++ digits)

/-- The digits of a positive number with an exponent: one digit before the point, and no point
behind a single digit. -/
def scientific (layout : Layout) (digits : List Char) (magnitude : Int) : String :=
  let mantissa :=
    match digits with
    | [] => ""
    | [d] => String.ofList [d]
    | d :: rest => String.ofList (d :: '.' :: rest)
  match magnitude with
  | .ofNat k => mantissa ++ layout.exponentMark ++ toString k
  | .negSucc k => mantissa ++ "e-" ++ toString (k + 1)

/-- The text of a positive decimal. -/
def magnitudeText (layout : Layout) (number : Scaled) : String :=
  let digits := Nat.toDigits 10 number.digits
  let magnitude := number.power + digits.length - 1
  if layout.isPositional magnitude then layout.positional digits number.power
  else layout.scientific digits magnitude

/-- The text of a double. A zero keeps its sign. -/
def text (layout : Layout) (x : Float) : String :=
  match Dyadic.ofFloat x with
  | .nan => "NaN"
  | .infinite negative => if negative then "-inf" else "inf"
  | .finite negative mantissa exponent =>
    let unsigned :=
      if mantissa = 0 then (if layout.keepsFraction then "0.0" else "0")
      else layout.magnitudeText (shortest mantissa exponent)
    if negative then "-" ++ unsigned else unsigned

end Layout

end Upkeep.Decimal
