/-
# Bytes as text

Text travels as UTF-8. Strict reading accepts well-formed bytes only. Lenient reading never
fails: each longest piece that could have begun a character but does not complete one becomes a
single replacement character, and reading resumes at the byte that broke it.
-/

namespace Upkeep.Text.Utf8

/-- The bytes of a text. -/
def encode (text : String) : List UInt8 :=
  text.toByteArray.data.toList

/-- The text that well-formed bytes hold. -/
def decode? (bytes : List UInt8) : Option String :=
  String.fromUTF8? ⟨bytes.toArray⟩

/-- What the first byte of a longer character promises: the bits it brings, how many bytes
follow it, and between which bounds the first of them lies. The bounds exclude overlong forms,
surrogates and code points above the last one. -/
structure Lead where
  bits : Nat
  following : Nat
  low : UInt8
  high : UInt8

/-- Reads the first byte of a character that takes more than one. -/
def lead? (byte : UInt8) : Option Lead :=
  if 0xC2 ≤ byte ∧ byte ≤ 0xDF then some ⟨byte.toNat - 0xC0, 1, 0x80, 0xBF⟩
  else if byte = 0xE0 then some ⟨0, 2, 0xA0, 0xBF⟩
  else if byte = 0xED then some ⟨0xD, 2, 0x80, 0x9F⟩
  else if 0xE1 ≤ byte ∧ byte ≤ 0xEF then some ⟨byte.toNat - 0xE0, 2, 0x80, 0xBF⟩
  else if byte = 0xF0 then some ⟨0, 3, 0x90, 0xBF⟩
  else if byte = 0xF4 then some ⟨4, 3, 0x80, 0x8F⟩
  else if 0xF1 ≤ byte ∧ byte ≤ 0xF3 then some ⟨byte.toNat - 0xF0, 3, 0x80, 0xBF⟩
  else none

/-- Reads the bytes that follow a first byte, the next of which must lie between `low` and
`high`. Gives the completed character, or none where a byte does not fit, and what is left. -/
def follow (bits : Nat) : Nat → UInt8 → UInt8 → List UInt8 → Option Char × List UInt8
  | 0, _, _, rest => (some (Char.ofNat bits), rest)
  | _ + 1, _, _, [] => (none, [])
  | n + 1, low, high, byte :: rest =>
    if low ≤ byte ∧ byte ≤ high then
      follow (64 * bits + (byte.toNat - 0x80)) n 0x80 0xBF rest
    else (none, byte :: rest)

/-- Following bytes are only ever taken off the front. -/
theorem length_follow_le (bits n : Nat) (low high : UInt8) (bytes : List UInt8) :
    (follow bits n low high bytes).2.length ≤ bytes.length := by
  induction n generalizing bits low high bytes with
  | zero => simp [follow]
  | succ n ih =>
    cases bytes with
    | nil => simp [follow]
    | cons byte rest =>
      by_cases h : low ≤ byte ∧ byte ≤ high
      · simpa [follow, h] using Nat.le_succ_of_le (ih _ _ _ rest)
      · simp [follow, h]

/-- The character that stands for a piece that is no character. -/
def replacement : Char := '\uFFFD'

/-- Adds the characters of the bytes behind those already read, latest first. -/
def lenientOnto (read : List Char) : List UInt8 → List Char
  | [] => read.reverse
  | byte :: rest =>
    if byte < 0x80 then lenientOnto (Char.ofNat byte.toNat :: read) rest
    else
      match lead? byte with
      | none => lenientOnto (replacement :: read) rest
      | some lead =>
        let outcome := follow lead.bits lead.following lead.low lead.high rest
        lenientOnto (outcome.1.getD replacement :: read) outcome.2
termination_by bytes => bytes.length
decreasing_by
  · simp
  · simp
  · exact Nat.lt_succ_of_le (length_follow_le ..)

/-- The text that bytes hold, with every broken piece replaced. -/
def decodeLenient (bytes : List UInt8) : String :=
  String.ofList (lenientOnto [] bytes)

/-- Reading what was written gives the text back. -/
theorem decode?_encode (text : String) : decode? (encode text) = some text := by
  have hbytes : (⟨text.toByteArray.data.toList.toArray⟩ : ByteArray) = text.toByteArray := by simp
  rw [decode?, encode, hbytes, String.fromUTF8?, dif_pos text.isValidUTF8, String.fromUTF8]

end Upkeep.Text.Utf8
