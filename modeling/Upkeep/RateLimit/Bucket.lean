/-
# Token buckets

A bucket gains tokens at a steady rate up to a limit, and every admitted request takes one. The
arithmetic is a parameter: a running service counts in floating point, and the laws about what
is admitted are laws of exact rational numbers. Instants are nanoseconds of a clock that may be
read out of order; an instant before the latest one adds nothing.
-/

import Upkeep.Double

namespace Upkeep.RateLimit

/-- The arithmetic that a token bucket needs. -/
class Arithmetic (α : Type) extends Add α, Sub α, Mul α where
  /-- A whole number of tokens. -/
  ofCount : Nat → α
  /-- A number of nanoseconds, in seconds. -/
  ofNanos : Nat → α
  /-- Whether the first number is at least the second. -/
  covers : α → α → Bool
  /-- The smaller of two numbers. Where only one of them is a number, that one. -/
  least : α → α → α

/-- Floating point. Seconds and their fraction are converted apart and then added. -/
instance : Arithmetic Double where
  ofCount := Double.ofNat
  ofNanos nanos :=
    .ofFloat (Float.ofNat (nanos / 1000000000) + Float.ofNat (nanos % 1000000000) / 1e9)
  covers := Double.covers
  least := Double.least

/-- Exact rational numbers. -/
instance : Arithmetic Rat where
  ofCount n := n
  ofNanos nanos := (nanos : Rat) / 1000000000
  covers a b := b ≤ a
  least a b := if b < a then b else a

/-- The tokens of one client, as of the latest instant seen. -/
structure Bucket (α : Type) where
  tokens : α
  updated : Int
deriving DecidableEq, Repr

namespace Bucket

variable {α : Type} [Arithmetic α]

/-- A full bucket. -/
def full (burst : α) (now : Int) : Bucket α :=
  ⟨burst, now⟩

/-- The bucket at a later instant, with the tokens gained since. -/
def refill (bucket : Bucket α) (rate burst : α) (now : Int) : Bucket α :=
  let elapsed := Arithmetic.ofNanos (now - bucket.updated).toNat
  ⟨Arithmetic.least (bucket.tokens + elapsed * rate) burst,
    if bucket.updated < now then now else bucket.updated⟩

/-- Refills the bucket and takes a token if there is a whole one. -/
def take (bucket : Bucket α) (rate burst : α) (now : Int) : Bool × Bucket α :=
  let filled := bucket.refill rate burst now
  let one : α := Arithmetic.ofCount 1
  if Arithmetic.covers filled.tokens one then
    (true, ⟨filled.tokens - one, filled.updated⟩)
  else (false, filled)

end Bucket

end Upkeep.RateLimit
