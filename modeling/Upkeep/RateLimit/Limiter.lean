/-
# Limiting by key

Each key has a token bucket of its own, made full when the key is first seen. The number of keys
is bounded: a new key at the bound displaces the one that has not been seen for longest. A sweep
drops every key that has been idle for longer than a set time.
-/

import Upkeep.RateLimit.Bucket

namespace Upkeep.RateLimit

/-- Nanoseconds after which an idle key is dropped, unless told otherwise: ten minutes. -/
def defaultIdleTime : Nat := 600 * 1000000000

/-- How many keys are kept, unless told otherwise. -/
def defaultMaxKeys : Nat := 10000

/-- How many tokens a bucket holds, unless told otherwise. -/
def defaultBurst : Nat := 20

/-- How many tokens a bucket gains in a second, unless told otherwise. -/
def defaultRate : Nat := 10

/-- Nanoseconds between two sweeps: one minute. -/
def sweepInterval : Nat := 60 * 1000000000

/-- The settings of a limiter. -/
structure Limits (α : Type) where
  /-- Tokens gained in a second. -/
  rate : α
  /-- Tokens that a bucket holds. -/
  burst : Nat
  maxKeys : Nat := defaultMaxKeys
  /-- Nanoseconds for which an idle key is kept. -/
  idleTime : Nat := defaultIdleTime

/-- What is known of one key. -/
structure Tracked (α : Type) where
  key : String
  bucket : Bucket α
  lastSeen : Int
deriving DecidableEq

/-- A token bucket for each of a bounded number of keys. -/
structure Limiter (α : Type) where
  limits : Limits α
  tracked : List (Tracked α) := []

namespace Limiter

variable {α : Type}

/-- A limiter that has seen nothing. At least one key can be kept. -/
def ofLimits (limits : Limits α) : Limiter α :=
  ⟨{ limits with maxKeys := max limits.maxKeys 1 }, []⟩

/-- What is known of a key. -/
def find? (limiter : Limiter α) (key : String) : Option (Tracked α) :=
  limiter.tracked.find? fun entry => entry.key = key

/-- Whether a key is tracked. -/
def contains (limiter : Limiter α) (key : String) : Bool :=
  (limiter.find? key).isSome

/-- How many keys are tracked. -/
def size (limiter : Limiter α) : Nat :=
  limiter.tracked.length

/-- The entry that was seen longest ago; of several, the first. -/
def stalest : List (Tracked α) → Option (Tracked α)
  | [] => none
  | entry :: rest =>
    match stalest rest with
    | none => some entry
    | some other => if other.lastSeen < entry.lastSeen then some other else some entry

/-- The entries without the one of a key. -/
def without (key : String) (entries : List (Tracked α)) : List (Tracked α) :=
  entries.filter fun entry => entry.key ≠ key

/-- The entries with room for a further key: at the bound, the one seen longest ago is gone. -/
def roomFor (limiter : Limiter α) (key : String) : List (Tracked α) :=
  if limiter.contains key ∨ limiter.size < limiter.limits.maxKeys then limiter.tracked
  else
    match stalest limiter.tracked with
    | none => limiter.tracked
    | some entry => without entry.key limiter.tracked

/-- Records a request for a key at an instant and decides whether it is admitted. -/
def allow [Arithmetic α] (limiter : Limiter α) (key : String) (now : Int) : Bool × Limiter α :=
  let burst : α := Arithmetic.ofCount limiter.limits.burst
  let bucket :=
    match limiter.find? key with
    | some entry => entry.bucket
    | none => Bucket.full burst now
  let (admitted, drained) := bucket.take limiter.limits.rate burst now
  (admitted,
    ⟨limiter.limits, without key (limiter.roomFor key) ++ [⟨key, drained, now⟩]⟩)

/-- Whether an entry has been idle for no longer than allowed. -/
def isFresh (limiter : Limiter α) (now : Int) (entry : Tracked α) : Bool :=
  (now - entry.lastSeen).toNat ≤ limiter.limits.idleTime

/-- The limiter without the keys that have been idle for too long. -/
def sweep (limiter : Limiter α) (now : Int) : Limiter α :=
  ⟨limiter.limits, limiter.tracked.filter (limiter.isFresh now)⟩

/-- The entries that have been idle for longer than allowed. -/
def stale (limiter : Limiter α) (now : Int) : List (Tracked α) :=
  limiter.tracked.filter fun entry => !limiter.isFresh now entry

/-- How many keys a sweep drops: it counts the stale entries that it has collected. -/
def sweepCount (limiter : Limiter α) (now : Int) : Nat :=
  (limiter.stale now).length

end Limiter

end Upkeep.RateLimit
