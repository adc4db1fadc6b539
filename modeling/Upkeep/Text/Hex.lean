/-
# Hexadecimal digits

Bytes are written as two lowercase digits each. Reading is offered in two strengths: the digits
of either case, as escapes in other formats allow, and the lowercase ones alone, for a format in
which every byte has one spelling.
-/

namespace Upkeep.Text.Hex

/-- The value of a hexadecimal digit of either case, given by its code point. -/
def value? (code : Nat) : Option Nat :=
  if 48 ≤ code ∧ code ≤ 57 then some (code - 48)
  else if 97 ≤ code ∧ code ≤ 102 then some (code - 87)
  else if 65 ≤ code ∧ code ≤ 70 then some (code - 55)
  else none

/-- The value of a lowercase hexadecimal digit. -/
def lowerValue? (c : Char) : Option Nat :=
  if 'A' ≤ c ∧ c ≤ 'F' then none else value? c.toNat

/-- The two digits of a byte. -/
def digits (byte : UInt8) : List Char :=
  [Nat.digitChar (byte.toNat / 16), Nat.digitChar (byte.toNat % 16)]

/-- The digits of a sequence of bytes. -/
def encode (bytes : List UInt8) : String :=
  String.ofList (bytes.flatMap digits)

/-- The digits of a number, without leading zeros. -/
def ofNat (n : Nat) : String :=
  String.ofList (Nat.toDigits 16 n)

/-- The bytes that pairs of lowercase digits stand for, if the text holds nothing else. -/
def decodeLower? : List Char → Option (List UInt8)
  | [] => some []
  | [_] => none
  | high :: low :: rest => do
    let h ← lowerValue? high
    let l ← lowerValue? low
    let bytes ← decodeLower? rest
    return UInt8.ofNat (16 * h + l) :: bytes

end Upkeep.Text.Hex
