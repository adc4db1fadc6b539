/-
# Fresh identifiers

A fresh identifier is a word with digits behind it. If it comes from random bytes there is nothing
else, and the bytes can be read off the digits. If it comes from the time of day there are two
numbers with an underscore between them, and the first of them is the time. As no digit is an
underscore, an identifier of one kind is never one of the other kind.

None of the characters has a meaning of its own where identifiers are sent: not in a header, not in
a query, and not at the ends of a text that is trimmed.
-/

import Upkeep.Http.Headers
import Upkeep.JobId
import Upkeep.Proofs.Signature
import Upkeep.Proofs.Text.Digits
import Upkeep.Text.Blank

namespace Upkeep

namespace Text.Hex

/-- An underscore is no digit. -/
theorem ne_digitChar {d : Nat} (hd : d < 16) : '_' ≠ Nat.digitChar d := by
  have hdigits : ∀ d < 16, '_' ≠ Nat.digitChar d := by decide
  exact hdigits d hd

end Text.Hex

namespace JobId

/-! ## What an identifier is made from -/

theorem toList_ofRandom (bytes : List UInt8) :
    (ofRandom bytes).text.toList = opening.toList ++ bytes.flatMap Text.Hex.digits := by
  simp [ofRandom, Text.Hex.encode]

theorem toList_ofTime (now : Int) :
    (ofTime now).text.toList = opening.toList ++ (Nat.toDigits 10 now.toNat ++
      '_' :: Nat.toDigits 16 (now.toNat / nanosPerSecond)) := by
  simp [ofTime, Text.Hex.ofNat]

theorem ofRandom_inj {bytes others : List UInt8} :
    ofRandom bytes = ofRandom others ↔ bytes = others := by
  rw [← Text.Hex.flatMap_digits_inj]
  constructor
  · intro hsame
    have hchars := congrArg (fun id => id.text.toList) hsame
    simpa only [toList_ofRandom, List.append_cancel_left_eq] using hchars
  · intro hdigits
    rw [ofRandom, ofRandom, Text.Hex.encode, hdigits, Text.Hex.encode]

/-- In front of the underscore there is the number of nanoseconds. -/
theorem takeWhile_ofTime (now : Int) :
    ((ofTime now).text.toList.drop opening.length).takeWhile (· ≠ '_') =
      Nat.toDigits 10 now.toNat := by
  have hdigits : ∀ c ∈ Nat.toDigits 10 now.toNat, decide (c ≠ '_') = true := by
    intro c hc
    obtain ⟨d, hd, rfl⟩ := Text.Hex.exists_hex_of_mem_toDigits (by decide) (by decide) hc
    exact decide_eq_true (Text.Hex.ne_digitChar hd).symm
  rw [toList_ofTime, ← String.length_toList, List.drop_left,
    List.takeWhile_append_of_pos hdigits]
  simp

/-- Two times give one identifier if they have the same number of nanoseconds since 1970, which is
zero for all times before it. -/
theorem ofTime_eq_iff {now later : Int} : ofTime now = ofTime later ↔ now.toNat = later.toNat := by
  constructor
  · intro hsame
    have hdigits : Nat.toDigits 10 now.toNat = Nat.toDigits 10 later.toNat := by
      rw [← takeWhile_ofTime, hsame, takeWhile_ofTime]
    calc
      now.toNat = Nat.ofDigitChars 10 (Nat.toDigits 10 now.toNat) 0 :=
        Nat.ofDigitChars_ten_toDigits.symm
      _ = Nat.ofDigitChars 10 (Nat.toDigits 10 later.toNat) 0 := by rw [hdigits]
      _ = later.toNat := Nat.ofDigitChars_ten_toDigits
  · intro hnanos
    rw [ofTime, ofTime, hnanos]

theorem ofRandom_ne_ofTime (bytes : List UInt8) (now : Int) : ofRandom bytes ≠ ofTime now := by
  intro hsame
  have hchars := congrArg (fun id => id.text.toList) hsame
  simp only [toList_ofRandom, toList_ofTime, List.append_cancel_left_eq] at hchars
  have hmem : '_' ∈ bytes.flatMap Text.Hex.digits := by
    rw [hchars]
    simp
  obtain ⟨d, hd, hdigit⟩ := Text.Hex.exists_of_mem_flatMap_digits hmem
  exact Text.Hex.ne_digitChar hd hdigit

/-- An identifier tells its random bytes, or its time unless that is before 1970, and which of the
two it was made from. -/
theorem generate_eq_generate_iff {drawn other : Option (Vector UInt8 randomBytes)}
    {now later : Int} :
    generate drawn now = generate other later ↔
      drawn = other ∧ (drawn = none → now.toNat = later.toNat) := by
  cases drawn with
  | none =>
      cases other with
      | none => simp [generate, ofTime_eq_iff]
      | some bytes => simp [generate, (ofRandom_ne_ofTime bytes.toList now).symm]
  | some bytes =>
      cases other with
      | none => simp [generate, ofRandom_ne_ofTime]
      | some others => simp [generate, ofRandom_inj, Vector.toList_inj]

theorem text_generate_ne_empty (drawn : Option (Vector UInt8 randomBytes)) (now : Int) :
    (generate drawn now).text ≠ "" := by
  intro hempty
  have hchars := congrArg String.toList hempty
  cases drawn with
  | some bytes => simp [generate, toList_ofRandom, opening] at hchars
  | none => simp [generate, toList_ofTime] at hchars

/-! ## The characters of an identifier -/

/-- A character of fresh identifiers. -/
def InFresh (c : Char) : Prop :=
  c ∈ opening.toList ∨ ∃ d < 16, c = Nat.digitChar d

theorem inFresh_of_mem_generate {drawn : Option (Vector UInt8 randomBytes)} {now : Int} {c : Char}
    (hc : c ∈ (generate drawn now).text.toList) : InFresh c := by
  cases drawn with
  | some bytes =>
      rw [generate, toList_ofRandom, List.mem_append] at hc
      exact hc.imp_right Text.Hex.exists_of_mem_flatMap_digits
  | none =>
      rw [generate, toList_ofTime, List.mem_append, List.mem_append, List.mem_cons] at hc
      rcases hc with hopening | hnanos | rfl | hseconds
      · exact .inl hopening
      · exact .inr (Text.Hex.exists_hex_of_mem_toDigits (by decide) (by decide) hnanos)
      · exact .inl (by decide)
      · exact .inr (Text.Hex.exists_hex_of_mem_toDigits (by decide) (by decide) hseconds)

/-- A character that means nothing but itself wherever an identifier is sent. -/
def IsPlain (c : Char) : Prop :=
  c.toNat < 128 ∧ c ∉ ['%', '+', '&', '#'] ∧ Text.isBlank c = false ∧
    (String.utf8EncodeChar c).all Http.isReadable = true

instance : DecidablePred IsPlain :=
  fun _ => inferInstanceAs (Decidable (_ ∧ _))

theorem InFresh.isPlain {c : Char} (hc : InFresh c) : IsPlain c := by
  have hopening : opening.toList.all (fun c => decide (IsPlain c)) = true := by decide
  have hdigit : ∀ d < 16, IsPlain (Nat.digitChar d) := by decide
  rcases hc with hc | ⟨d, hd, rfl⟩
  · exact of_decide_eq_true (List.all_eq_true.1 hopening c hc)
  · exact hdigit d hd

/-! ## Identifiers in headers -/

/-- Whether an identifier can be the value of a header. -/
def CanBeSent (id : JobId) : Prop :=
  (Text.Utf8.encode id.text).all Http.isAllowed = true

instance : DecidablePred CanBeSent :=
  fun _ => inferInstanceAs (Decidable (_ = true))

/-- Every byte that can be read can be sent. -/
theorem isAllowed_of_isReadable {byte : UInt8} (hreadable : Http.isReadable byte = true) :
    Http.isAllowed byte = true := by
  simp only [Http.isReadable, Http.isAllowed, Bool.or_eq_true, Bool.and_eq_true, bne_iff_ne] at *
  rcases hreadable with htab | ⟨hlow, hhigh⟩
  · exact .inl htab
  · exact .inr ⟨hlow, UInt8.ne_of_lt (of_decide_eq_true hhigh)⟩

section Plain

variable {id : JobId} (hplain : ∀ c ∈ id.text.toList, IsPlain c)
include hplain

/-- In a header the identifier is read as it is. -/
theorem readable?_of_plain : Http.readable? (Text.Utf8.encode id.text) = some id.text :=
  Http.readable?_encode fun c hc => (hplain c hc).2.2.2

theorem canBeSent_of_plain : id.CanBeSent := by
  have hreadable := (Http.readable?_eq_some_iff.1 (readable?_of_plain hplain)).1
  rw [List.all_eq_true] at hreadable
  rw [CanBeSent, List.all_eq_true]
  exact fun byte hbyte => isAllowed_of_isReadable (hreadable byte hbyte)

/-- Trimming takes nothing off the identifier. -/
theorem trim_of_plain : Text.trim id.text = id.text := by
  rw [Text.trim, Text.trimList_of_not_blank fun c hc => (hplain c hc).2.2.1,
    String.ofList_toList]

end Plain

end JobId

end Upkeep
