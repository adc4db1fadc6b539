/-
# Fresh requests

A request says when it was signed, and is acted on only near that time, so that an old one that
was overheard is of no use. Both times are whole seconds of 64 bits with sign; a difference that
does not fit in them is certainly too large.
-/

import Upkeep.Text.Blank

namespace Upkeep.Service

/-- How many seconds a request may be old, or ahead of its time. -/
def replayWindow : Nat := 300

/-- A request that was signed too long ago or too far ahead. -/
structure Expired where
  timestamp : Int64
  now : Int64
deriving DecidableEq

/-- The message about a request that is not fresh. -/
def Expired.message (expired : Expired) : String :=
  "request timestamp " ++ toString expired.timestamp.toInt ++
    " is outside the allowed window (server time " ++ toString expired.now.toInt ++ ")"

/-- The difference of two numbers of 64 bits, if it has 64 bits too. -/
def difference? (a b : Int64) : Option Int64 :=
  let exact := a.toInt - b.toInt
  if Int64.minValue.toInt ≤ exact ∧ exact ≤ Int64.maxValue.toInt then some (Int64.ofInt exact)
  else none

/-- Checks that a request was signed near the present. -/
def checkFresh (timestamp now : Int64) : Except Expired Unit :=
  match difference? now timestamp with
  | none => .error ⟨timestamp, now⟩
  | some difference =>
    if difference.toInt.natAbs ≤ replayWindow then .ok () else .error ⟨timestamp, now⟩

end Upkeep.Service
