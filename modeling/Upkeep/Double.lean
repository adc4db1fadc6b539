/-
# Floating-point numbers by their bits

A number in floating point is counted with like any other, but it is told from others by its
bits: zeros of different sign are different, and so are two of the many that are no number. A
value that is only passed on keeps its bits whatever it is.
-/

namespace Upkeep

/-- A floating-point number of 64 bits. -/
structure Double where
  bits : UInt64
deriving DecidableEq, Repr

namespace Double

/-- The number that the bits stand for. -/
def toFloat (x : Double) : Float :=
  .ofBits x.bits

/-- The bits of a number. -/
def ofFloat (x : Float) : Double :=
  ⟨x.toBits⟩

/-- The whole number nearest to a natural one. -/
def ofNat (n : Nat) : Double :=
  ofFloat (Float.ofNat n)

instance : Add Double := ⟨fun x y => ofFloat (x.toFloat + y.toFloat)⟩

instance : Sub Double := ⟨fun x y => ofFloat (x.toFloat - y.toFloat)⟩

instance : Mul Double := ⟨fun x y => ofFloat (x.toFloat * y.toFloat)⟩

/-- Whether the first number is at least the second. -/
def covers (x y : Double) : Bool :=
  y.toFloat ≤ x.toFloat

/-- The smaller of two numbers. Where the first is no number, the second; where only the second
is none, the first. -/
def least (x y : Double) : Double :=
  if x.toFloat.isNaN then y else if y.toFloat < x.toFloat then y else x

end Double

end Upkeep
