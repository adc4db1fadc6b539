/-
# Header fields

The fields of a request or a response, in their order. Names are compared without regard to
letter case, and a name may occur several times. A value is a sequence of bytes; it can be read
as text when every byte is a tab or a visible ASCII character or a space.
-/

import Upkeep.Text.Utf8

namespace Upkeep.Http

/-- A list of header fields. -/
abbrev Headers := List (String × List UInt8)

/-- Whether a byte may occur in a value that is read as text. -/
def isReadable (byte : UInt8) : Bool :=
  byte == 0x09 || (0x20 ≤ byte && byte < 0x7F)

/-- The text of a value, if all of it can be read. -/
def readable? (value : List UInt8) : Option String :=
  if value.all isReadable then some (String.ofList (value.map fun b => Char.ofNat b.toNat))
  else none

/-- Whether a byte may occur in a value at all. -/
def isAllowed (byte : UInt8) : Bool :=
  byte == 0x09 || (0x20 ≤ byte && byte != 0x7F)

/-- Whether two names are the same but for letter case. -/
def sameName (a b : String) : Bool :=
  a.toLower == b.toLower

namespace Headers

/-- The values of a name, in order. -/
def values (headers : Headers) (name : String) : List (List UInt8) :=
  (headers.filter fun field => sameName field.1 name).map Prod.snd

/-- The first value of a name as text: nothing if there is none or it cannot be read. -/
def text? (headers : Headers) (name : String) : Option String :=
  (headers.values name).head?.bind readable?

end Headers

end Upkeep.Http
