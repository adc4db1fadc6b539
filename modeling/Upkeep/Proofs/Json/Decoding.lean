/-
# Written values decoded

A decoder of the values that this library writes, put together from the readers of tokens: blanks
may stand between the tokens, any escape may stand in a string, and members come in any order. A
number is kept as its characters, for what they mean depends on who reads them. Whatever is
written is decoded as what it was, so no two values are written alike.

The decoder calls itself on what a reading has left. That this is less than before is checked
where it goes on with the next member, since what a call leaves is not known before it is made.
-/

import Upkeep.Proofs.Json.Grammar

namespace Upkeep.Json

/-! ## The decoder -/

/-- Decodes a number, as its characters. -/
def decodeNumber (bytes : List UInt8) : Option (String × List UInt8) :=
  match skipNumber (if bytes.head? = some (ascii '-') then bytes.tail else bytes) with
  | .error _ => none
  | .ok rest =>
    (Text.Utf8.decode? (bytes.take (bytes.length - rest.length))).map fun decimal =>
      (decimal, rest)

mutual

/-- Decodes a value, and gives the bytes behind it. -/
def decodeValue (bytes : List UInt8) : Option (Value × List UInt8) :=
  match _hspace : skipSpace bytes with
  | [] => none
  | byte :: rest =>
    if byte = ascii '"' then (readText rest).toOption.map fun read => (.text read.1, read.2)
    else if byte = ascii '\x7b' then
      (decodeMembers true rest).map fun read => (.object read.1, read.2)
    else (decodeNumber (byte :: rest)).map fun read => (.number read.1, read.2)
termination_by bytes.length
decreasing_by exact length_of_skipSpace _hspace

/-- Decodes the members of an object up to its closing brace. -/
def decodeMembers (isFirst : Bool) (bytes : List UInt8) :
    Option (List (String × Value) × List UInt8) :=
  match _hname : readName isFirst bytes with
  | .error _ => none
  | .ok (none, rest) => some ([], rest)
  | .ok (some name, behind) =>
    match _hcolon : readColon behind with
    | .error _ => none
    | .ok further =>
      match decodeValue further with
      | none => none
      | some (value, rest) =>
        if _hshorter : rest.length < bytes.length then
          (decodeMembers false rest).map fun read => ((name, value) :: read.1, read.2)
        else none
termination_by bytes.length
decreasing_by
  · have := length_of_readName _hname
    have := length_of_readColon _hcolon
    omega
  · exact _hshorter

end

/-- The value that a text is written for, if nothing but blanks stands behind it. -/
def decode (bytes : List UInt8) : Option Value :=
  match decodeValue bytes with
  | some (value, rest) => if (skipSpace rest).isEmpty then some value else none
  | none => none

/-! ## What is written is decoded -/

/-- All numbers in a value are numbers of the grammar. -/
inductive Value.WellFormed : Value → Prop
  | text (value : String) : WellFormed (.text value)
  | number {decimal : String} (hnumber : IsNumber (Text.Utf8.encode decimal)) :
      WellFormed (.number decimal)
  | object {members : List (String × Value)}
      (hmembers : ∀ member ∈ members, member.2.WellFormed) : WellFormed (.object members)

section Written

variable {bytes rest : List UInt8}

/-- The first byte of a number is a minus sign or a digit, and tells whether to pass it. -/
theorem skipNumber_unsigned (hnumber : IsNumber bytes) (hends : EndsNumber rest) :
    skipNumber (if (bytes ++ rest).head? = some (ascii '-') then (bytes ++ rest).tail
      else bytes ++ rest) = .ok rest := by
  cases hnumber with
  | @of sign whole fraction exponent hsign hwhole hfraction hexponent =>
      have hskip := skipNumber_append hwhole hfraction hexponent hends
      simp only [List.mem_cons, List.not_mem_nil, or_false] at hsign
      rcases hsign with rfl | rfl
      · obtain ⟨first, tail, rfl, hdigit⟩ := hwhole.exists_digit
        have hminus : first ≠ ascii '-' := by
          rintro rfl
          exact absurd hdigit (by decide)
        rw [if_neg (by simpa using hminus)]
        simpa using hskip
      · simpa using hskip

theorem decodeNumber_append {decimal : String} (hnumber : IsNumber (Text.Utf8.encode decimal))
    (hends : EndsNumber rest) :
    decodeNumber (Text.Utf8.encode decimal ++ rest) = some (decimal, rest) := by
  have hlength : (Text.Utf8.encode decimal ++ rest).length - rest.length =
      (Text.Utf8.encode decimal).length := by
    rw [List.length_append, Nat.add_sub_cancel]
  rw [decodeNumber, skipNumber_unsigned hnumber hends]
  dsimp only
  rw [hlength, List.take_left, Text.Utf8.decode?_encode]
  rfl

/-- A number begins with a minus sign or a digit. -/
theorem IsNumber.exists_first (hnumber : IsNumber bytes) :
    ∃ first tail, bytes = first :: tail ∧ (first = ascii '-' ∨ isDigit first = true) := by
  cases hnumber with
  | @of sign whole fraction exponent hsign hwhole _ _ =>
      simp only [List.mem_cons, List.not_mem_nil, or_false] at hsign
      rcases hsign with rfl | rfl
      · obtain ⟨first, tail, rfl, hdigit⟩ := hwhole.exists_digit
        exact ⟨first, tail ++ (fraction ++ exponent), rfl, .inr hdigit⟩
      · exact ⟨ascii '-', whole ++ (fraction ++ exponent), rfl, .inl rfl⟩

/-- Where a number begins, no blank, no string and no object does. -/
theorem plain_of_numberStart {first : UInt8} (hstart : first = ascii '-' ∨ isDigit first = true) :
    isSpace first = false ∧ first ≠ ascii '"' ∧ first ≠ ascii '\x7b' := by
  rcases hstart with rfl | hdigit
  · decide
  · refine ⟨isSpace_of_isDigit hdigit, ?_, ?_⟩
    · rintro rfl
      exact absurd hdigit (by decide)
    · rintro rfl
      exact absurd hdigit (by decide)

theorem decodeValue_text (text : String) (rest : List UInt8) :
    decodeValue (bytesOf (writeText text) ++ rest) = some (.text text, rest) := by
  rw [bytesOf_writeText_append, decodeValue, skipSpace_of_not_space rfl]
  simp only [if_pos, readText_written]
  rfl

theorem decodeValue_number {decimal : String} (hnumber : IsNumber (Text.Utf8.encode decimal))
    (hends : EndsNumber rest) :
    decodeValue (bytesOf decimal.toList ++ rest) = some (.number decimal, rest) := by
  have hdecode := decodeNumber_append hnumber hends
  obtain ⟨first, tail, hfirst, hstart⟩ := hnumber.exists_first
  obtain ⟨hsolid, hquote, hbrace⟩ := plain_of_numberStart hstart
  rw [hfirst] at hdecode
  rw [← encode_eq_bytesOf, hfirst, List.cons_append, decodeValue,
    skipSpace_of_not_space hsolid]
  dsimp only
  rw [if_neg hquote, if_neg hbrace, ← List.cons_append, hdecode]
  rfl

theorem decodeMembers_closing (isFirst : Bool) (rest : List UInt8) :
    decodeMembers isFirst (ascii '\x7d' :: rest) = some ([], rest) := by
  rw [decodeMembers, readName_closing]

/-- A member is decoded, and then those behind it. -/
theorem decodeMembers_cons {isFirst : Bool} {name : String} {value : Value}
    {members : List (String × Value)}
    (hvalue : decodeValue (bytesOf value.write ++ (spellMembers false members ++ rest)) =
      some (value, spellMembers false members ++ rest)) :
    decodeMembers isFirst (spellMembers isFirst ((name, value) :: members) ++ rest) =
      (decodeMembers false (spellMembers false members ++ rest)).map fun read =>
        ((name, value) :: read.1, read.2) := by
  have hshorter : (spellMembers false members ++ rest).length <
      (spellMembers isFirst ((name, value) :: members) ++ rest).length := by
    rw [spellMembers]
    simp only [List.length_append, List.length_cons]
    omega
  rw [decodeMembers, readName_written]
  dsimp only
  rw [readColon_written]
  dsimp only
  rw [hvalue]
  dsimp only
  rw [dif_pos hshorter]

theorem decodeMembers_written {members : List (String × Value)}
    (hmembers : ∀ member ∈ members, ∀ behind, EndsNumber behind →
      decodeValue (bytesOf member.2.write ++ behind) = some (member.2, behind))
    (isFirst : Bool) (rest : List UInt8) :
    decodeMembers isFirst (spellMembers isFirst members ++ ascii '\x7d' :: rest) =
      some (members, rest) := by
  induction members generalizing isFirst with
  | nil => exact decodeMembers_closing isFirst rest
  | cons member members ih =>
      have hvalue := hmembers member List.mem_cons_self _ (endsNumber_members members rest)
      rw [decodeMembers_cons hvalue,
        ih (fun other hother => hmembers other (List.mem_cons_of_mem _ hother)) false]
      rfl

/-- What is written for a value is decoded as this value, and nothing behind it is touched. -/
theorem Value.WellFormed.decodeValue_append {value : Value} (hvalue : value.WellFormed)
    (hends : EndsNumber rest) :
    decodeValue (bytesOf value.write ++ rest) = some (value, rest) := by
  induction hvalue generalizing rest with
  | text value =>
      rw [Value.write]
      exact decodeValue_text value rest
  | number hnumber =>
      rw [Value.write]
      exact decodeValue_number hnumber hends
  | @object members _ ih =>
      have hmembers := decodeMembers_written (fun member hmember _ => ih member hmember) true rest
      rw [bytesOf_object, decodeValue, skipSpace_of_not_space rfl]
      dsimp only
      rw [if_neg (by decide), if_pos rfl, hmembers]
      rfl

end Written

/-- The text of a value is decoded as this value. -/
theorem Value.WellFormed.decode_render {value : Value} (hvalue : value.WellFormed) :
    decode (Text.Utf8.encode value.render) = some value := by
  have hdecode := hvalue.decodeValue_append endsNumber_nil
  rw [List.append_nil] at hdecode
  rw [encode_render, decode, hdecode]
  rfl

end Upkeep.Json
