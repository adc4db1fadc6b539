/-
# The fewest digits that read back

Every real number in a certain interval around a double rounds to that double. Its shortest
decimal is the one of fewest digits in this interval and, of several with that many, the one
nearest to the double. For each number of digits only the two neighbours of the double on the
decimal grid can lie in the interval, so seventeen tries find it.
-/

namespace Upkeep.Decimal

/-- The number `digits * 10 ^ power`. -/
structure Scaled where
  digits : Nat
  power : Int
deriving DecidableEq, Repr

/-- The least `n ≤ fuel` for which `num * 10 ^ n` reaches `den`, counted on from `n`. -/
def stepsToReach (num den : Nat) : Nat → Nat → Nat
  | 0, n => n
  | fuel + 1, n => if den ≤ num then n else stepsToReach (num * 10) den fuel (n + 1)

/-- The power of ten just above `num / den`: the `k` with `10 ^ (k - 1) ≤ num / den < 10 ^ k`,
for a positive number above `10 ^ (-400)`. -/
def magnitude (num den : Nat) : Int :=
  if den ≤ num then (Nat.toDigits 10 (num / den)).length
  else 1 - Int.ofNat (stepsToReach num den 400 0)

/-- A nonnegative fraction scaled by a power of ten, as numerator and denominator. -/
def scale (num den : Nat) (power : Int) : Nat × Nat :=
  match power with
  | .ofNat k => (num * Nat.pow 10 k, den)
  | .negSucc k => (num, den * Nat.pow 10 (k + 1))

/-- A decimal of `count` digits in normal form: where rounding up has carried into a further
digit, the number is that power of ten. -/
def carry (count : Nat) (number : Scaled) : Scaled :=
  if number.digits = Nat.pow 10 count then ⟨number.digits / 10, number.power + 1⟩ else number

/-- The numbers around a value that are taken for it, as numerators over one denominator. The
ends are among them if it is closed. -/
structure Neighbourhood where
  low : Nat
  value : Nat
  high : Nat
  den : Nat
  closed : Bool

namespace Neighbourhood

/-- What rounds to `mantissa * 2 ^ exponent`. In units of a quarter of the last binary place the
number is `4 * mantissa`; the interval of what rounds to it reaches up by two units and down by
two, or by one where the numbers below lie twice as dense. Its ends belong to it when the mantissa
is even. -/
def ofDyadic (mantissa : Nat) (exponent : Int) : Neighbourhood :=
  let below := if mantissa = Nat.pow 2 52 ∧ -1074 < exponent then 1 else 2
  let unit := if exponent < 2 then 1 else Nat.pow 2 (exponent - 2).toNat
  { low := (4 * mantissa - below) * unit
    value := 4 * mantissa * unit
    high := (4 * mantissa + 2) * unit
    den := if exponent < 2 then Nat.pow 2 (2 - exponent).toNat else 1
    closed := mantissa % 2 == 0 }

/-- Whether a decimal is taken for the value. -/
def holds (around : Neighbourhood) (number : Scaled) : Bool :=
  let (low, div) := scale around.low around.den (-number.power)
  let (high, _) := scale around.high around.den (-number.power)
  if around.closed then low ≤ number.digits * div && number.digits * div ≤ high
  else low < number.digits * div && number.digits * div < high

/-- The multiple of `10 ^ power` nearest to the value, if one that is next to it is taken for it;
it has at most `count` digits. -/
def onGrid? (around : Neighbourhood) (count : Nat) (power : Int) : Option Scaled :=
  -- In grid steps of `10 ^ power` the number is `num / div`.
  let (num, div) := scale around.value around.den (-power)
  let down := num / div
  let rest := num % div
  match around.holds ⟨down, power⟩, around.holds ⟨down + 1, power⟩ with
  | true, true =>
    if 2 * rest < div ∨ (2 * rest = div ∧ down % 2 = 0) then some ⟨down, power⟩
    else some (carry count ⟨down + 1, power⟩)
  | true, false => some ⟨down, power⟩
  | false, true => some (carry count ⟨down + 1, power⟩)
  | false, false => none

end Neighbourhood

/-- The shortest decimal of `mantissa * 2 ^ exponent`, for a positive mantissa of at most 53
bits. -/
def shortest (mantissa : Nat) (exponent : Int) : Scaled :=
  let around := Neighbourhood.ofDyadic mantissa exponent
  let top := magnitude around.value around.den
  ((List.range' 1 17).findSome? fun count => around.onGrid? count (top - count)).getD
    ⟨around.value / around.den, 0⟩

end Upkeep.Decimal
