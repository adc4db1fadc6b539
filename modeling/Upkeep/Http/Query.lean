/-
# Query strings

A query lists names and values in the encoding of web forms: ampersands between the entries, an
equals sign between name and value, a plus sign for a space, and a percent sign with two digits
for any other byte. Reading never fails: a percent sign without its digits stands for itself, and
bytes that are no text are replaced.
-/

import Upkeep.Text.Hex
import Upkeep.Text.Utf8

namespace Upkeep.Http.Query

/-- The pieces of a text between the places where a separator stands. -/
def pieces (separator : UInt8) : List UInt8 → List (List UInt8)
  | [] => [[]]
  | byte :: rest =>
    if byte = separator then [] :: pieces separator rest
    else
      match pieces separator rest with
      | [] => [[byte]]
      | piece :: others => (byte :: piece) :: others

/-- The bytes that an encoded name or value stands for. -/
def decodeBytes : List UInt8 → List UInt8
  | [] => []
  | byte :: rest =>
    if byte = 0x2B then 0x20 :: decodeBytes rest
    else if byte = 0x25 then
      match rest with
      | high :: low :: behind =>
        match Text.Hex.value? high.toNat, Text.Hex.value? low.toNat with
        | some h, some l => UInt8.ofNat (16 * h + l) :: decodeBytes behind
        | _, _ => 0x25 :: decodeBytes (high :: low :: behind)
      | short => 0x25 :: decodeBytes short
    else byte :: decodeBytes rest
termination_by bytes => bytes.length

/-- The text that an encoded name or value stands for. -/
def decode (bytes : List UInt8) : String :=
  Text.Utf8.decodeLenient (decodeBytes bytes)

/-- The name and the value of an entry; without an equals sign the value is empty. -/
def entry (bytes : List UInt8) : String × String :=
  (decode (bytes.takeWhile (· ≠ 0x3D)), decode ((bytes.dropWhile (· ≠ 0x3D)).drop 1))

/-- The entries of a query, in order. Empty ones are passed over. -/
def entries (query : String) : List (String × String) :=
  ((pieces 0x26 (Text.Utf8.encode query)).filter fun piece => !piece.isEmpty).map entry

/-- The value of a name that occurs once. A query in which it occurs more often is no use. -/
def single? (query name : String) : Option String :=
  match (entries query).filter fun entry => entry.1 = name with
  | [entry] => some entry.2
  | _ => none

end Upkeep.Http.Query
