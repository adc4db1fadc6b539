/-
# Binary floating point, taken apart

A double-precision number is a sign with a mantissa and a power of two, or an infinity, or not a
number. Everything that is said about its decimal text is said about these parts, in exact
arithmetic on natural numbers.
-/

namespace Upkeep.Decimal

/-- What the 64 bits of a double stand for; a finite one is `mantissa * 2 ^ exponent`. -/
inductive Dyadic where
  | nan
  | infinite (negative : Bool)
  | finite (negative : Bool) (mantissa : Nat) (exponent : Int)
deriving DecidableEq, Repr

namespace Dyadic

/-- Splits the bits into sign, exponent field and fraction field. A fraction under the exponent
field zero has no hidden leading bit. -/
def ofBits (bits : UInt64) : Dyadic :=
  let negative := bits.toNat / Nat.pow 2 63 == 1
  let field := bits.toNat / Nat.pow 2 52 % Nat.pow 2 11
  let fraction := bits.toNat % Nat.pow 2 52
  if field = 2047 then
    if fraction = 0 then .infinite negative else .nan
  else if field = 0 then .finite negative fraction (-1074)
  else .finite negative (Nat.pow 2 52 + fraction) (Int.ofNat field - 1075)

/-- The parts of a double. -/
def ofFloat (x : Float) : Dyadic :=
  ofBits x.toBits

end Dyadic

end Upkeep.Decimal
