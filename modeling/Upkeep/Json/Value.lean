/-
# Written values

The values that this library writes are texts, numbers and objects. An object lists its members
in the order in which they are given, and nothing stands between the tokens. Inside a text the
quote, the backslash and the controls below the space are escaped; all else stands for itself.
-/

import Upkeep.Text.Hex

namespace Upkeep.Json

/-- A value to be written. A number is given by its decimal text. -/
inductive Value where
  | text (value : String)
  | number (decimal : String)
  | object (members : List (String × Value))

/-- The characters that stand for one character inside a written string. -/
def escaped (c : Char) : List Char :=
  if c = '"' then ['\\', '"']
  else if c = '\\' then ['\\', '\\']
  else if c = '\x08' then ['\\', 'b']
  else if c = '\x0c' then ['\\', 'f']
  else if c = '\n' then ['\\', 'n']
  else if c = '\r' then ['\\', 'r']
  else if c = '\t' then ['\\', 't']
  else if c.toNat < 0x20 then ['\\', 'u', '0', '0'] ++ Text.Hex.digits (UInt8.ofNat c.toNat)
  else [c]

/-- A string with its quotes. -/
def writeText (text : String) : List Char :=
  '"' :: text.toList.flatMap escaped ++ ['"']

namespace Value

mutual

/-- The characters of a value. -/
def write : Value → List Char
  | .text value => writeText value
  | .number decimal => decimal.toList
  | .object members => '\x7b' :: writeMembers members ++ ['\x7d']

/-- The characters of an object's members, with a comma between two. -/
def writeMembers : List (String × Value) → List Char
  | [] => []
  | [(name, value)] => writeText name ++ ':' :: write value
  | (name, value) :: next :: rest =>
    writeText name ++ ':' :: write value ++ ',' :: writeMembers (next :: rest)

end

/-- The text of a value. -/
def render (value : Value) : String :=
  String.ofList value.write

end Value

end Upkeep.Json
