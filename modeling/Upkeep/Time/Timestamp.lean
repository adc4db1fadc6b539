/-
# Moments of the calendar

A timestamp is a whole number of nanoseconds since the beginning of 1970, within the years that
the calendar of this library covers. The bounds are part of the type: arithmetic that could
leave them has to say what happens there, and `clamp` says that the nearest bound is taken.
-/

namespace Upkeep

/-- Nanoseconds in a second. -/
def nanosPerSecond : Nat := 1000000000

/-- Nanoseconds in a millisecond. -/
def nanosPerMilli : Nat := 1000000

namespace Timestamp

/-- The beginning of the year −262143. -/
def earliest : Int := -8334601228800 * 1000000000

/-- The last nanosecond of the year 262142. -/
def latest : Int := 8210266876800 * 1000000000 - 1

end Timestamp

/-- A moment, in nanoseconds since the beginning of 1970. -/
structure Timestamp where
  nanos : Int
  earliest_le : Timestamp.earliest ≤ nanos
  le_latest : nanos ≤ Timestamp.latest
deriving DecidableEq

namespace Timestamp

/-- Two timestamps are the same moment when their nanoseconds agree. -/
@[ext] theorem ext {s t : Timestamp} (h : s.nanos = t.nanos) : s = t := by
  cases s; cases t; simp_all

/-- The moment nearest to a number of nanoseconds. -/
def clamp (nanos : Int) : Timestamp :=
  if h : nanos < earliest then ⟨earliest, by simp, by decide⟩
  else if h' : latest < nanos then ⟨latest, by decide, by simp⟩
  else ⟨nanos, Int.not_lt.1 h, Int.not_lt.1 h'⟩

/-- The beginning of 1970. -/
def epoch : Timestamp := clamp 0

instance : LE Timestamp := ⟨fun s t => s.nanos ≤ t.nanos⟩

instance : LT Timestamp := ⟨fun s t => s.nanos < t.nanos⟩

instance (s t : Timestamp) : Decidable (s ≤ t) := inferInstanceAs (Decidable (s.nanos ≤ t.nanos))

instance (s t : Timestamp) : Decidable (s < t) := inferInstanceAs (Decidable (s.nanos < t.nanos))

instance : Inhabited Timestamp := ⟨epoch⟩

/-- The later of two moments. -/
def later (s t : Timestamp) : Timestamp :=
  if s ≤ t then t else s

/-- Whole seconds since the beginning of 1970, rounded toward the past. -/
def seconds (t : Timestamp) : Int :=
  t.nanos / 1000000000

/-- The nanoseconds past the whole second. -/
def subsecond (t : Timestamp) : Nat :=
  (t.nanos % 1000000000).toNat

/-- The nanoseconds that have passed from `s` to `t`, and zero if `t` is the earlier one. -/
def elapsed (s t : Timestamp) : Nat :=
  (t.nanos - s.nanos).toNat

/-- The moment a number of nanoseconds before `t`, or the earliest one if there is none. -/
def before (t : Timestamp) (span : Nat) : Timestamp :=
  clamp (t.nanos - span)

/-- Within the bounds, clamping changes nothing. -/
theorem nanos_clamp {n : Int} (hlow : earliest ≤ n) (hhigh : n ≤ latest) :
    (clamp n).nanos = n := by
  rw [clamp, dif_neg (Int.not_lt.2 hlow), dif_neg (Int.not_lt.2 hhigh)]

end Timestamp

end Upkeep
