/-
# Values of a known shape there and back

Each reader takes what is written for its kind of value, and leaves what is written behind it. So
the readings follow one another as the writings do, and an object is read member by member. A
member does not show in its own bytes whether it is the first; `spellMembers` says so in front of
it, as the readers do that ask for the next name.
-/

import Upkeep.Json.Shape
import Upkeep.Proofs.Bindings
import Upkeep.Proofs.Json.Number

namespace Upkeep.Json

/-! ## Single values -/

theorem skipSpace_of_not_space {byte : UInt8} (hsolid : isSpace byte = false)
    (rest : List UInt8) : skipSpace (byte :: rest) = byte :: rest := by
  rw [skipSpace, hsolid]
  rfl

theorem isSpace_of_isDigit {byte : UInt8} (hdigit : isDigit byte = true) :
    isSpace byte = false := by
  apply Bool.eq_false_iff.2
  intro hspace
  simp only [isSpace, Bool.or_eq_true, beq_iff_eq] at hspace
  rcases hspace with ((rfl | rfl) | rfl) | rfl <;> exact absurd hdigit (by decide)

theorem bytesOf_writeText_append (text : String) (rest : List UInt8) :
    bytesOf (writeText text) ++ rest =
      ascii '"' :: (bytesOf (text.toList.flatMap escaped) ++ ascii '"' :: rest) := by
  have hquote : ('"').toNat < 128 := by decide
  rw [writeText, List.cons_append, bytesOf_cons_of_lt hquote, bytesOf_append,
    bytesOf_cons_of_lt hquote, bytesOf_nil, List.cons_append, List.append_assoc]
  rfl

theorem readString_written (text : String) (rest : List UInt8) :
    readString (bytesOf (writeText text) ++ rest) = .ok (text, rest) := by
  rw [bytesOf_writeText_append, readString, skipSpace_of_not_space rfl]
  dsimp only
  rw [if_pos rfl, readText_written]

theorem readQuoted_written (name : String) (rest : List UInt8) :
    readQuoted (bytesOf (writeText name) ++ rest) = .ok (some name, rest) := by
  rw [bytesOf_writeText_append, readQuoted, if_pos rfl, readText_written]
  rfl

/-- Every number of 64 bits is accepted as what it is. -/
theorem toInt64_integer (value : Int64) : toInt64 (.integer value.toInt) = .ok value := by
  have hmax : value.toInt ≤ Int64.maxValue.toInt := Int.le_of_lt_add_one value.toInt_lt
  rw [toInt64, if_pos ⟨value.minValue_le_toInt, hmax⟩, Int64.ofInt_toInt]

/-- What is left to do once a number is read: to see whether it is an integer of 64 bits. -/
def narrow (reading : Reading Number) : Reading Int64 :=
  reading.bind fun read => (toInt64 read.1).map fun value => (value, read.2)

/-- Every number of 64 bits is accepted. -/
theorem narrow_integer (value : Int64) (rest : List UInt8) :
    narrow (.ok (.integer value.toInt, rest)) = .ok (value, rest) := by
  show (toInt64 (.integer value.toInt)).map _ = _
  rw [toInt64_integer]
  rfl

theorem eq_integer_of_toInt64 {number : Number} {value : Int64}
    (haccepted : toInt64 number = .ok value) : number = .integer value.toInt := by
  cases number with
  | float => cases haccepted
  | integer number =>
      rw [toInt64] at haccepted
      split at haccepted
      next hrange =>
        cases haccepted
        have hlow : -2 ^ 63 ≤ number := hrange.1
        have hhigh : number ≤ 2 ^ 63 - 1 := hrange.2
        rw [Int64.toInt_ofInt_of_le hlow (by omega)]
      next => cases haccepted

/-- Nothing else is accepted. -/
theorem eq_of_narrow {reading : Reading Number} {value : Int64} {rest : List UInt8}
    (hread : narrow reading = .ok (value, rest)) : reading = .ok (.integer value.toInt, rest) := by
  cases reading with
  | error => cases hread
  | ok read =>
      obtain ⟨number, behind⟩ := read
      cases haccepted : toInt64 number with
      | error fault =>
          have hfault : narrow (.ok (number, behind)) = .error fault := by
            show (toInt64 number).map _ = _
            rw [haccepted]
            rfl
          cases hread.symm.trans hfault
      | ok found =>
          have hfound : narrow (.ok (number, behind)) = .ok (found, behind) := by
            show (toInt64 number).map _ = _
            rw [haccepted]
            rfl
          cases hread.symm.trans hfound
          rw [eq_integer_of_toInt64 haccepted]

section Int64

variable {byte : UInt8} {bytes rest : List UInt8}

/-- A digit begins a number without a sign. -/
theorem readInt64_of_digit (hdigit : isDigit byte = true) :
    readInt64 (byte :: bytes) = narrow (readNumber false (byte :: bytes)) := by
  have hsolid := isSpace_of_isDigit hdigit
  have hminus : byte ≠ ascii '-' := by
    rintro rfl
    exact absurd hdigit (by decide)
  rw [readInt64, skipSpace_of_not_space hsolid]
  dsimp only
  rw [if_pos (.inr hdigit), if_neg hminus, decide_eq_false hminus]
  cases readNumber false (byte :: bytes) <;> rfl

theorem readInt64_of_minus : readInt64 (ascii '-' :: bytes) = narrow (readNumber true bytes) := by
  rw [readInt64, skipSpace_of_not_space rfl]
  dsimp only
  rw [if_pos (.inl rfl), if_pos rfl, decide_eq_true rfl]
  cases readNumber true bytes <;> rfl

theorem readInt64_natCast (n : Nat) (rest : List UInt8) :
    readInt64 (bytesOf (toString (Int.ofNat n)).toList ++ rest) =
      narrow (readNumber false (bytesOf (Nat.toDigits 10 n) ++ rest)) := by
  obtain ⟨d, chars, hten, -, hdigits⟩ :=
    Text.Hex.exists_toDigits_eq_cons (by decide : 1 < 10) n
  have htext : (toString (Int.ofNat n)).toList = Nat.toDigits 10 n := toList_toString_natCast n
  rw [htext, hdigits, bytesOf_cons_of_lt (toNat_digitChar_lt hten)]
  exact readInt64_of_digit (isDigit_digitChar hten)

theorem readInt64_negSucc (n : Nat) (rest : List UInt8) :
    readInt64 (bytesOf (toString (Int.negSucc n)).toList ++ rest) =
      narrow (readNumber true (bytesOf (Nat.toDigits 10 (n + 1)) ++ rest)) := by
  have hminus : ('-').toNat < 128 := by decide
  rw [toList_toString_negSucc, bytesOf_cons_of_lt hminus]
  exact readInt64_of_minus

/-- The decimal text of a number is read as this number, if none goes on behind it. -/
theorem readInt64_written (value : Int64) (hends : EndsNumber rest) :
    readInt64 (bytesOf (toString value.toInt).toList ++ rest) = .ok (value, rest) := by
  have hlow := value.le_toInt
  have hhigh := value.toInt_lt
  have hvalue := narrow_integer value rest
  cases hsign : value.toInt with
  | ofNat n =>
      rw [hsign] at hhigh
      have hn : (n : Int) < 2 ^ 63 := hhigh
      have hfits : n < UInt64.size := by
        simp only [UInt64.size]
        omega
      rw [hsign] at hvalue
      rw [readInt64_natCast, readNumber_natCast hends hfits]
      exact hvalue
  | negSucc n =>
      rw [hsign] at hlow
      have hfits : n < 2 ^ 63 := by omega
      rw [hsign] at hvalue
      rw [readInt64_negSucc, readNumber_negSucc hends hfits]
      exact hvalue

end Int64

/-- Where no `null` can stand, what is read is there. -/
theorem readOptional_of_solid {α : Type} {reader : List UInt8 → Reading α} {byte : UInt8}
    (hsolid : isSpace byte = false) (hnull : byte ≠ ascii 'n') (rest : List UInt8) :
    readOptional reader (byte :: rest) = mapValue some (reader (byte :: rest)) := by
  rw [readOptional, skipSpace_of_not_space hsolid]
  dsimp only
  rw [if_neg hnull]

/-! ## Members -/

/-- The bytes of some members, each behind a comma unless it is the first. -/
def spellMembers (isFirst : Bool) : List (String × Value) → List UInt8
  | [] => []
  | (name, value) :: members =>
    (if isFirst then [] else [ascii ',']) ++ bytesOf (writeText name) ++ ascii ':' ::
      (bytesOf value.write ++ spellMembers false members)

theorem bytesOf_writeMembers (members : List (String × Value)) :
    bytesOf (Value.writeMembers members) = spellMembers true members := by
  have hcolon : (':').toNat < 128 := by decide
  have hcomma : (',').toNat < 128 := by decide
  induction members with
  | nil => rfl
  | cons member members ih =>
      obtain ⟨name, value⟩ := member
      cases members with
      | nil =>
          rw [Value.writeMembers, bytesOf_append, bytesOf_cons_of_lt hcolon, spellMembers,
            spellMembers, List.append_nil]
          rfl
      | cons next members =>
          rw [Value.writeMembers, List.append_assoc, bytesOf_append, List.cons_append,
            bytesOf_cons_of_lt hcolon, bytesOf_append, bytesOf_cons_of_lt hcomma, ih]
          rfl

/-- An object is its members between braces. -/
theorem bytesOf_object (members : List (String × Value)) (rest : List UInt8) :
    bytesOf (Value.object members).write ++ rest =
      ascii '\x7b' :: (spellMembers true members ++ ascii '\x7d' :: rest) := by
  have hopening : ('\x7b').toNat < 128 := by decide
  have hclosing : ('\x7d').toNat < 128 := by decide
  rw [Value.write, List.cons_append, bytesOf_cons_of_lt hopening, bytesOf_append,
    bytesOf_cons_of_lt hclosing, bytesOf_nil, bytesOf_writeMembers, List.cons_append,
    List.append_assoc]
  rfl

/-- Whatever follows a member, no number goes on with it. -/
theorem endsNumber_members (members : List (String × Value)) (rest : List UInt8) :
    EndsNumber (spellMembers false members ++ ascii '\x7d' :: rest) := by
  cases members with
  | nil =>
      rintro byte ⟨⟩
      decide
  | cons member members =>
      rintro byte ⟨⟩
      decide

/-! ## Objects -/

section Members

variable {bytes rest : List UInt8}

theorem readName_closing (isFirst : Bool) (rest : List UInt8) :
    readName isFirst (ascii '\x7d' :: rest) = .ok (none, rest) := by
  rw [readName, skipSpace_of_not_space rfl]
  dsimp only
  rw [if_pos rfl]

/-- In front of a quote, a comma is read away, unless the name is the first. -/
theorem readName_quoted (isFirst : Bool) (rest : List UInt8) :
    readName isFirst ((if isFirst then [] else [ascii ',']) ++ ascii '"' :: rest) =
      readQuoted (ascii '"' :: rest) := by
  cases isFirst with
  | true =>
      show readName true (ascii '"' :: rest) = _
      rw [readName, skipSpace_of_not_space rfl]
      dsimp only
      rw [if_neg (by decide), if_pos rfl]
  | false =>
      show readName false (ascii ',' :: ascii '"' :: rest) = _
      rw [readName, skipSpace_of_not_space rfl]
      dsimp only
      rw [if_neg (by decide), if_neg Bool.false_ne_true, if_pos rfl, skipSpace_of_not_space rfl]

/-- The next name of an object is read, and its colon is left. -/
theorem readName_written (isFirst : Bool) (name : String) (value : Value)
    (members : List (String × Value)) (rest : List UInt8) :
    readName isFirst (spellMembers isFirst ((name, value) :: members) ++ rest) =
      .ok (some name,
        ascii ':' :: (bytesOf value.write ++ (spellMembers false members ++ rest))) := by
  rw [spellMembers, List.append_assoc, List.append_assoc, bytesOf_writeText_append, readName_quoted,
    ← bytesOf_writeText_append, readQuoted_written, List.cons_append, List.append_assoc]

theorem readColon_written (rest : List UInt8) : readColon (ascii ':' :: rest) = .ok rest := by
  rw [readColon, skipSpace_of_not_space rfl]
  dsimp only
  rw [if_pos rfl]

theorem readMembers_of_closing {isFirst : Bool} {read : Bindings}
    (hname : readName isFirst bytes = .ok (none, rest)) :
    readMembers isFirst read bytes = .ok (read, rest) := by
  rw [readMembers]
  split <;> simp_all

theorem readMembers_of_member {isFirst : Bool} {read : Bindings} {name value : String}
    {behind further : List UInt8} (hname : readName isFirst bytes = .ok (some name, behind))
    (hcolon : readColon behind = .ok further) (hvalue : readString further = .ok (value, rest)) :
    readMembers isFirst read bytes = readMembers false (read.insert name value) rest := by
  rw [readMembers]
  split
  next hother => cases hname.symm.trans hother
  next hother => cases hname.symm.trans hother
  next hother =>
    cases hname.symm.trans hother
    split
    next hother => cases hcolon.symm.trans hother
    next hother =>
      cases hcolon.symm.trans hother
      split
      next hother => cases hvalue.symm.trans hother
      next hother => cases hvalue.symm.trans hother; rfl

/-- The members of a map are read one after the other, up to the closing brace. -/
theorem readMembers_written (isFirst : Bool) (read : Bindings) (entries : List (String × String))
    (rest : List UInt8) :
    readMembers isFirst read
        (spellMembers isFirst (entries.map fun entry => (entry.1, .text entry.2)) ++
          ascii '\x7d' :: rest) =
      .ok (entries.foldl (fun result entry => result.insert entry.1 entry.2) read, rest) := by
  induction entries generalizing isFirst read with
  | nil => exact readMembers_of_closing (readName_closing isFirst rest)
  | cons entry entries ih =>
      rw [List.map_cons, readMembers_of_member (readName_written ..) (readColon_written _)
        (readString_written ..), ih]
      rfl

end Members

/-- The map that is made of some entries is read from these entries. -/
theorem readBindings_written (entries : List (String × String)) (rest : List UInt8) :
    readBindings (bytesOf
        (Value.object (entries.map fun entry => (entry.1, .text entry.2))).write ++ rest) =
      .ok (.ofList entries, rest) := by
  rw [bytesOf_object, readBindings, skipSpace_of_not_space rfl]
  dsimp only
  rw [if_pos rfl, readMembers_written]
  rfl

end Upkeep.Json
