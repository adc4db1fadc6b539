/-
# Job identifiers

A job is known by a text. Fresh identifiers are made from sixteen random bytes; where no random
bytes can be had, from the time of day. The two forms differ in their separators, so an
identifier of one form is never one of the other.
-/

import Upkeep.Json.Value
import Upkeep.Time.Timestamp

namespace Upkeep

/-- The name of a job. -/
structure JobId where
  text : String
deriving DecidableEq, Repr

namespace JobId

/-- What every fresh identifier starts with. -/
def opening : String := "job_"

/-- How many random bytes go into an identifier. -/
def randomBytes : Nat := 16

/-- The identifier made from random bytes. -/
def ofRandom (bytes : List UInt8) : JobId :=
  ⟨opening ++ Text.Hex.encode bytes⟩

/-- The identifier made from the time of day, given in nanoseconds since the beginning of 1970: the
nanoseconds in decimal and the whole seconds in hexadecimal digits. Times before 1970 count as
its beginning; how far the calendar reaches does not matter. -/
def ofTime (now : Int) : JobId :=
  let nanos := now.toNat
  ⟨opening ++ toString nanos ++ "_" ++ Text.Hex.ofNat (nanos / nanosPerSecond)⟩

/-- A fresh identifier, made from the bytes that were drawn at random. If the source of them failed,
it is made from the time of day. -/
def generate (drawn : Option (Vector UInt8 randomBytes)) (now : Int) : JobId :=
  match drawn with
  | some bytes => ofRandom bytes.toList
  | none => ofTime now

/-- The identifier as a JSON value. -/
def toJson (id : JobId) : Json.Value :=
  .text id.text

end JobId

end Upkeep
