/-
# Strings there and back

What is written for a text is read as this text, whatever its characters are and whatever follows
behind the closing quote. A character reaches the reader in one of three ways: as a letter behind a
backslash, as a number of four digits behind one, or as its own bytes. The last are never taken for
a quote, a backslash or a control, for a character beyond ASCII has no byte of an ASCII character.
-/

import Upkeep.Json.Text
import Upkeep.Json.Value
import Upkeep.Proofs.Signature

namespace Upkeep.Json

/-! ## Bytes of characters -/

/-- The bytes of some characters. -/
def bytesOf (chars : List Char) : List UInt8 :=
  chars.flatMap String.utf8EncodeChar

theorem encode_eq_bytesOf (text : String) : Text.Utf8.encode text = bytesOf text.toList := by
  rw [bytesOf, ← Text.Utf8.encode_ofList, String.ofList_toList]

theorem encode_render (value : Value) : Text.Utf8.encode value.render = bytesOf value.write :=
  Text.Utf8.encode_ofList _

@[simp] theorem bytesOf_nil : bytesOf [] = [] := rfl

@[simp] theorem bytesOf_append (chars others : List Char) :
    bytesOf (chars ++ others) = bytesOf chars ++ bytesOf others :=
  List.flatMap_append

/-- An ASCII character in front is its one byte. -/
theorem bytesOf_cons_of_lt {c : Char} (hascii : c.toNat < 128) (chars : List Char) :
    bytesOf (c :: chars) = ascii c :: bytesOf chars := by
  rw [bytesOf, List.flatMap_cons, Text.Utf8.encodeChar_of_lt hascii]
  rfl

/-- Gathered backwards, the first character comes last. -/
theorem reverse_bytesOf_cons (c : Char) (chars : List Char) (gathered : List UInt8) :
    (bytesOf (c :: chars)).reverse ++ gathered =
      (bytesOf chars).reverse ++ ((String.utf8EncodeChar c).reverse ++ gathered) := by
  rw [bytesOf, List.flatMap_cons, List.reverse_append, List.append_assoc]
  rfl

/-! ## Characters inside a string -/

/-- A byte that stands for itself inside a string. -/
structure IsPlain (byte : UInt8) : Prop where
  not_quote : byte ≠ ascii '"'
  not_backslash : byte ≠ ascii '\\'
  not_control : ¬byte < 0x20

section Gather

variable {gathered bytes rest : List UInt8}

theorem gatherText_quote : gatherText gathered (ascii '"' :: rest) = .ok (gathered, rest) := by
  rw [gatherText, if_pos rfl]

/-- Plain bytes are gathered as they are. -/
theorem gatherText_of_plain (hplain : ∀ byte ∈ bytes, IsPlain byte) :
    gatherText gathered (bytes ++ rest) = gatherText (bytes.reverse ++ gathered) rest := by
  induction bytes generalizing gathered with
  | nil => rfl
  | cons byte bytes ih =>
      obtain ⟨hquote, hbackslash, hcontrol⟩ := hplain byte List.mem_cons_self
      rw [List.cons_append, gatherText, if_neg hquote, if_neg hbackslash, if_neg hcontrol,
        ih fun other hother => hplain other (List.mem_cons_of_mem _ hother), List.reverse_cons,
        List.append_assoc, List.singleton_append]

/-- Of an escape, the bytes of the character that it stands for are gathered. -/
theorem gatherText_of_escape {c : Char} (hescape : readEscape bytes = .ok (c, rest)) :
    gatherText gathered (ascii '\\' :: bytes) =
      gatherText ((String.utf8EncodeChar c).reverse ++ gathered) rest := by
  rw [gatherText, if_neg (by decide), if_pos rfl]
  split
  next fault hfault => cases hescape.symm.trans hfault
  next other behind hother =>
    cases hescape.symm.trans hother
    rfl

end Gather

/-- A character without an escape has plain bytes only. -/
theorem isPlain_of_mem_encodeChar {c : Char} (hquote : c ≠ '"') (hbackslash : c ≠ '\\')
    (hcontrol : ¬c.toNat < 0x20) {byte : UInt8} (hbyte : byte ∈ String.utf8EncodeChar c) :
    IsPlain byte := by
  by_cases hascii : c.toNat < 128
  · rw [Text.Utf8.encodeChar_of_lt hascii, List.mem_singleton] at hbyte
    have hcode : byte.toNat = c.toNat := by
      rw [hbyte, UInt8.toNat_ofNat_of_lt' (hascii.trans (by decide))]
    refine ⟨?_, ?_, ?_⟩
    · rintro rfl
      exact hquote (Char.toNat_inj.1 hcode.symm)
    · rintro rfl
      exact hbackslash (Char.toNat_inj.1 hcode.symm)
    · rwa [UInt8.lt_iff_toNat_lt, hcode]
  · have hlarge := UInt8.le_iff_toNat_le.1
      (Text.Utf8.le_of_mem_encodeChar (Nat.not_lt.1 hascii) hbyte)
    refine ⟨?_, ?_, ?_⟩
    · rintro rfl
      exact absurd hlarge (by decide)
    · rintro rfl
      exact absurd hlarge (by decide)
    · rw [UInt8.lt_iff_toNat_lt]
      exact fun hlt => absurd (hlarge.trans_lt hlt) (by decide)

/-- The digits of a control character are read as its code point. -/
theorem hexEscape_of_control {c : Char} (hcontrol : c.toNat < 0x20) (rest : List UInt8) :
    hexEscape (ascii '0' :: ascii '0' :: bytesOf (Text.Hex.digits (UInt8.ofNat c.toNat)) ++ rest) =
      .ok (c.toNat, rest) := by
  have hdigits : ∀ code < 0x20, ∃ high low,
      bytesOf (Text.Hex.digits (UInt8.ofNat code)) = [high, low] ∧
        Text.Hex.value? high.toNat = some (code / 16) ∧
          Text.Hex.value? low.toNat = some (code % 16) := by
    intro code hcode
    interval_cases code <;> exact ⟨_, _, rfl, rfl, rfl⟩
  obtain ⟨high, low, hbytes, hhigh, hlow⟩ := hdigits c.toNat hcontrol
  have hzero : Text.Hex.value? (ascii '0').toNat = some 0 := rfl
  simp only [hbytes, List.cons_append, List.nil_append, hexEscape, hzero, hhigh, hlow]
  congr 2
  omega

theorem readEscape_of_control {c : Char} (hcontrol : c.toNat < 0x20) (rest : List UInt8) :
    readEscape (ascii 'u' :: ascii '0' :: ascii '0' ::
      bytesOf (Text.Hex.digits (UInt8.ofNat c.toNat)) ++ rest) = .ok (c, rest) := by
  have hhex := hexEscape_of_control hcontrol rest
  simp only [List.cons_append] at hhex ⊢
  rw [readEscape, if_pos rfl, hhex]
  dsimp only
  rw [if_neg (by omega), if_neg (by omega), Char.ofNat_toNat]

/-- What is written for a character is read as this character. -/
theorem gatherText_escaped (c : Char) (gathered rest : List UInt8) :
    gatherText gathered (bytesOf (escaped c) ++ rest) =
      gatherText ((String.utf8EncodeChar c).reverse ++ gathered) rest := by
  rw [escaped]
  -- Seven characters are written with a letter of their own.
  iterate 7
    split
    next h =>
      subst h
      exact gatherText_of_escape rfl
  split
  next hcontrol => exact gatherText_of_escape (readEscape_of_control hcontrol rest)
  next hquote hbackslash _ _ _ _ _ hcontrol =>
    have hplain : ∀ byte ∈ String.utf8EncodeChar c, IsPlain byte :=
      fun byte hbyte => isPlain_of_mem_encodeChar hquote hbackslash hcontrol hbyte
    rw [bytesOf, List.flatMap_singleton, gatherText_of_plain hplain]

theorem gatherText_flatMap_escaped (chars : List Char) (gathered rest : List UInt8) :
    gatherText gathered (bytesOf (chars.flatMap escaped) ++ rest) =
      gatherText ((bytesOf chars).reverse ++ gathered) rest := by
  induction chars generalizing gathered with
  | nil => rfl
  | cons c chars ih =>
      rw [List.flatMap_cons, bytesOf_append, List.append_assoc, gatherText_escaped, ih,
        reverse_bytesOf_cons]

/-- A written string is read as the text, and what is behind its quote is left. -/
theorem readText_written (text : String) (rest : List UInt8) :
    readText (bytesOf (text.toList.flatMap escaped) ++ ascii '"' :: rest) = .ok (text, rest) := by
  rw [readText, gatherText_flatMap_escaped, gatherText_quote]
  dsimp only
  rw [List.append_nil, List.reverse_reverse, ← encode_eq_bytesOf, Text.Utf8.decode?_encode]

end Upkeep.Json
