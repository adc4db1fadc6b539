/-
# Reading bytes from the left

A reader takes bytes off the front of a text and gives what it read with what is left. The
readers here are the smallest ones: blanks, digits, fixed words and escape digits. Each comes
with the lemma that it leaves no more than it was given.
-/

import Upkeep.Json.Fault
import Upkeep.Text.Hex

namespace Upkeep.Json

/-- What a reader gives: a value with the bytes behind it, or the first fault. -/
abbrev Reading (α : Type) := Except Fault (α × List UInt8)

/-- The same reading with its value turned into another. -/
def mapValue {α β : Type} (f : α → β) : Reading α → Reading β
  | .error fault => .error fault
  | .ok (value, rest) => .ok (f value, rest)

/-- What a mapped reading gives is a value of the reading itself, with the same rest. -/
theorem exists_of_mapValue {α β : Type} {f : α → β} {reading : Reading α} {value : β}
    {rest : List UInt8} (h : mapValue f reading = .ok (value, rest)) :
    ∃ found, reading = .ok (found, rest) ∧ f found = value := by
  unfold mapValue at h
  split at h
  · cases h
  · simp only [Except.ok.injEq, Prod.mk.injEq] at h
    exact ⟨_, by rw [← h.2], h.1⟩

/-- The byte of an ASCII character. -/
@[inline] def ascii (c : Char) : UInt8 :=
  UInt8.ofNat c.toNat

/-- Whether a byte may stand between the tokens of a text. -/
def isSpace (byte : UInt8) : Bool :=
  byte == 0x20 || byte == 0x0A || byte == 0x09 || byte == 0x0D

/-- Whether a byte is a decimal digit. -/
def isDigit (byte : UInt8) : Bool :=
  0x30 ≤ byte && byte ≤ 0x39

/-- The value of a decimal digit. -/
def digitValue (byte : UInt8) : Nat :=
  byte.toNat - 0x30

/-- The bytes behind any spaces. -/
def skipSpace : List UInt8 → List UInt8
  | [] => []
  | byte :: rest => if isSpace byte then skipSpace rest else byte :: rest

/-- Skipping spaces adds nothing. -/
theorem length_skipSpace_le (bytes : List UInt8) :
    (skipSpace bytes).length ≤ bytes.length := by
  induction bytes with
  | nil => simp [skipSpace]
  | cons byte rest ih =>
    by_cases h : isSpace byte = true
    · simpa [skipSpace, h] using Nat.le_succ_of_le ih
    · simp [skipSpace, h]

/-- Once the spaces are skipped, what follows the next byte is shorter than the whole. -/
theorem length_of_skipSpace {bytes rest : List UInt8} {byte : UInt8}
    (h : skipSpace bytes = byte :: rest) : rest.length < bytes.length := by
  have := length_skipSpace_le bytes
  rwa [h] at this

/-- The bytes behind any digits. -/
def skipDigits : List UInt8 → List UInt8
  | [] => []
  | byte :: rest => if isDigit byte then skipDigits rest else byte :: rest

/-- Skipping digits adds nothing. -/
theorem length_skipDigits_le (bytes : List UInt8) :
    (skipDigits bytes).length ≤ bytes.length := by
  induction bytes with
  | nil => simp [skipDigits]
  | cons byte rest ih =>
    by_cases h : isDigit byte = true
    · simpa [skipDigits, h] using Nat.le_succ_of_le ih
    · simp [skipDigits, h]

/-- Reads a fixed word: a text that ends within it is truncated, another one is malformed. -/
def expectWord : List UInt8 → List UInt8 → Except Fault (List UInt8)
  | [], rest => .ok rest
  | _ :: _, [] => .error .truncated
  | letter :: word, byte :: rest =>
    if byte = letter then expectWord word rest else .error .malformed

/-- Reading a word leaves no more than there was. -/
theorem length_of_expectWord {word bytes rest : List UInt8}
    (h : expectWord word bytes = .ok rest) : rest.length ≤ bytes.length := by
  induction word generalizing bytes with
  | nil => cases h; exact Nat.le_refl _
  | cons letter word ih =>
    cases bytes with
    | nil => simp [expectWord] at h
    | cons byte behind =>
      by_cases hb : byte = letter
      · rw [expectWord, if_pos hb] at h
        exact Nat.le_succ_of_le (ih h)
      · simp [expectWord, hb] at h

/-- What is left of the word `null` behind its first letter. -/
def nullTail : List UInt8 := [ascii 'u', ascii 'l', ascii 'l']

/-- What is left of the word `true` behind its first letter. -/
def trueTail : List UInt8 := [ascii 'r', ascii 'u', ascii 'e']

/-- What is left of the word `false` behind its first letter. -/
def falseTail : List UInt8 := [ascii 'a', ascii 'l', ascii 's', ascii 'e']

/-- Reads the four hexadecimal digits of an escape. All four bytes must be there before any of
them is judged. -/
def hexEscape : List UInt8 → Reading Nat
  | a :: b :: c :: d :: rest =>
    match Text.Hex.value? a.toNat, Text.Hex.value? b.toNat, Text.Hex.value? c.toNat,
        Text.Hex.value? d.toNat with
    | some p, some q, some r, some s => .ok (((p * 16 + q) * 16 + r) * 16 + s, rest)
    | _, _, _, _ => .error .malformed
  | _ => .error .truncated

/-- Four digits are taken. -/
theorem length_of_hexEscape {bytes rest : List UInt8} {code : Nat}
    (h : hexEscape bytes = .ok (code, rest)) : rest.length < bytes.length := by
  unfold hexEscape at h
  split at h
  · split at h
    · cases h; simp; omega
    · cases h
  · cases h

end Upkeep.Json
