/-
# Internet addresses

Addresses of both versions and their usual texts. Reading accepts every spelling of an address:
letters of either case, leading zeros in a group, zero groups left out once, and the last two
groups written as an address of version 4. Writing gives one of them: lowercase, no leading
zeros, the first longest run of at least two zero groups left out, and an address of version 4
that is mapped into version 6 shown as such.
-/

import Upkeep.Text.Hex

namespace Upkeep.Net

/-- An address of version 4. -/
structure Ipv4 where
  a : UInt8
  b : UInt8
  c : UInt8
  d : UInt8
deriving DecidableEq, Repr

/-- An address of version 6. -/
structure Ipv6 where
  groups : List UInt16
  length_eq : groups.length = 8
deriving DecidableEq

/-- An address. -/
inductive Address where
  | v4 (address : Ipv4)
  | v6 (address : Ipv6)
deriving DecidableEq

/-- What a reader of characters gives: a value and the characters behind it. -/
abbrev Read (α : Type) := Option (α × List Char)

/-- Whether a character is a digit to the given base. -/
def isDigitTo (base : Nat) (c : Char) : Bool :=
  match Text.Hex.value? c.toNat with
  | some value => value < base
  | none => false

/-- The number that digits stand for. -/
def numeralTo (base : Nat) (digits : List Char) : Nat :=
  digits.foldl (fun value c => value * base + (Text.Hex.value? c.toNat).getD 0) 0

/-- Reads all the digits that come next: at least one, and at most `width`. -/
def readDigits (base width : Nat) (chars : List Char) : Read (List Char) :=
  let digits := chars.takeWhile (isDigitTo base)
  if digits.isEmpty ∨ width < digits.length then none
  else some (digits, chars.dropWhile (isDigitTo base))

/-- Reads a given character. -/
def readChar (c : Char) : List Char → Option (List Char)
  | [] => none
  | first :: rest => if first = c then some rest else none

/-- Reads a part of an address of version 4: up to three digits without a leading zero, and at
most 255. -/
def readOctet (chars : List Char) : Read UInt8 :=
  match readDigits 10 3 chars with
  | none => none
  | some (digits, rest) =>
    let value := numeralTo 10 digits
    if (digits.head? = some '0' ∧ 1 < digits.length) ∨ 255 < value then none
    else some (UInt8.ofNat value, rest)

/-- Reads an address of version 4: four parts with points between them. -/
def readIpv4 (chars : List Char) : Option (Ipv4 × List Char) := do
  let (a, rest) ← readOctet chars
  let (b, rest) ← readOctet (← readChar '.' rest)
  let (c, rest) ← readOctet (← readChar '.' rest)
  let (d, rest) ← readOctet (← readChar '.' rest)
  return (⟨a, b, c, d⟩, rest)

/-- The two groups that an address of version 4 fills. -/
def Ipv4.groups (address : Ipv4) : List UInt16 :=
  [address.a.toUInt16 <<< 8 ||| address.b.toUInt16,
    address.c.toUInt16 <<< 8 ||| address.d.toUInt16]

/-- Reads a group of an address of version 6: up to four digits. -/
def readGroup (chars : List Char) : Read UInt16 :=
  (readDigits 16 4 chars).map fun (digits, rest) => (UInt16.ofNat (numeralTo 16 digits), rest)

/-- Reads as many groups as there are, up to `room`, with a colon in front of each unless it is
the first. An address of version 4 may stand for the last two; nothing can follow it. Says also
whether one did. -/
def readGroups : Nat → Bool → List Char → List UInt16 × Bool × List Char
  | 0, _, chars => ([], false, chars)
  | room + 1, isFirst, chars =>
    match if isFirst then some chars else readChar ':' chars with
    | none => ([], false, chars)
    | some behind =>
      match if room = 0 then none else readIpv4 behind with
      | some (address, rest) => (address.groups, true, rest)
      | none =>
        match readGroup behind with
        | none => ([], false, chars)
        | some (group, rest) =>
          let (groups, embedded, last) := readGroups room false rest
          (group :: groups, embedded, last)

/-- The address of eight groups. -/
def Ipv6.ofGroups? (groups : List UInt16) : Option Ipv6 :=
  if h : groups.length = 8 then some ⟨groups, h⟩ else none

/-- Reads an address of version 6: eight groups, or fewer around a double colon that stands for
at least one zero group. -/
def readIpv6 (chars : List Char) : Option (Ipv6 × List Char) := do
  let (front, embedded, rest) := readGroups 8 true chars
  if front.length = 8 then
    return (← Ipv6.ofGroups? front, rest)
  if embedded then failure
  let rest ← readChar ':' (← readChar ':' rest)
  let (back, _, rest) := readGroups (7 - front.length) true rest
  let zeros := List.replicate (8 - front.length - back.length) 0
  return (← Ipv6.ofGroups? (front ++ zeros ++ back), rest)

namespace Address

/-- The address that a text spells, if it spells one from its first character to its last. -/
def read? (chars : List Char) : Option Address :=
  match readIpv4 chars with
  | some (address, []) => some (.v4 address)
  | _ =>
    match readIpv6 chars with
    | some (address, []) => some (.v6 address)
    | _ => none

/-- The address of a text. -/
def ofText? (text : String) : Option Address :=
  read? text.toList

/-- The address of a text that names a socket: an address with a port behind a colon. Around an
address of version 6 stand brackets, within which a zone may follow behind a percent sign; port
and zone are dropped. -/
def ofSocket? (text : String) : Option Address :=
  match text.toList with
  | '[' :: rest =>
    read? (rest.takeWhile fun c => c ≠ ']' && c ≠ '%')
  | chars => read? (chars.takeWhile (· ≠ ':'))

end Address

/-- The text of an address of version 4. -/
def Ipv4.write (address : Ipv4) : List Char :=
  let part (byte : UInt8) : List Char := Nat.toDigits 10 byte.toNat
  part address.a ++ '.' :: part address.b ++ '.' :: part address.c ++ '.' :: part address.d

/-- Groups with a colon between two. -/
def writeGroups : List UInt16 → List Char
  | [] => []
  | [group] => Nat.toDigits 16 group.toNat
  | group :: next :: rest => Nat.toDigits 16 group.toNat ++ ':' :: writeGroups (next :: rest)

/-- How many zero groups a list starts with. -/
def leadingZeros (groups : List UInt16) : Nat :=
  (groups.takeWhile (· == 0)).length

/-- The first longest run of zero groups, as its place and its length. -/
def longestZeros : List UInt16 → Nat × Nat
  | [] => (0, 0)
  | group :: rest =>
    let here := leadingZeros (group :: rest)
    let (place, length) := longestZeros rest
    if here < length then (place + 1, length) else (0, here)

/-- The address of version 4 that is mapped into one of version 6. -/
def Ipv6.mapped? (address : Ipv6) : Option Ipv4 :=
  match address.groups with
  | [0, 0, 0, 0, 0, 0xFFFF, high, low] =>
    some ⟨(high >>> 8).toUInt8, high.toUInt8, (low >>> 8).toUInt8, low.toUInt8⟩
  | _ => none

/-- The text of an address of version 6. -/
def Ipv6.write (address : Ipv6) : List Char :=
  match address.mapped? with
  | some inner => "::ffff:".toList ++ inner.write
  | none =>
    let (place, length) := longestZeros address.groups
    if 1 < length then
      writeGroups (address.groups.take place) ++ ':' :: ':' ::
        writeGroups (address.groups.drop (place + length))
    else writeGroups address.groups

/-- The text of an address. -/
def Address.text : Address → String
  | .v4 address => String.ofList address.write
  | .v6 address => String.ofList address.write

end Upkeep.Net
