/-
# Reading values of a known shape

A reader that knows what it wants goes straight for it: a string, a 64-bit integer, a map from
names to strings, or `null` in place of one of them. Where something else stands, that is read
as far as the complaint about it needs; if it is itself broken, that fault comes first.
-/

import Upkeep.Bindings
import Upkeep.Decimal.Layout
import Upkeep.Json.Number
import Upkeep.Json.Skip
import Upkeep.Json.Text

namespace Upkeep.Json

/-- A number as a complaint shows it. -/
def Number.found : Number → Found
  | .integer value => .integer value
  | .float value => .float (Decimal.Layout.data.text value)

/-- What is wrong where a value of another kind stands. -/
def complaint (expected : String) : List UInt8 → Fault
  | [] => .truncated
  | byte :: rest =>
    let wrong (found : Found) : Fault := .mismatch (.wrongType found expected)
    let word (tail : List UInt8) (found : Found) : Fault :=
      match expectWord tail rest with
      | .error fault => fault
      | .ok _ => wrong found
    let number (reading : Reading Number) : Fault :=
      match reading with
      | .error fault => fault
      | .ok (value, _) => wrong value.found
    if byte = ascii 'n' then word nullTail .null
    else if byte = ascii 't' then word trueTail (.boolean true)
    else if byte = ascii 'f' then word falseTail (.boolean false)
    else if byte = ascii '-' then number (readNumber true rest)
    else if isDigit byte then number (readNumber false (byte :: rest))
    else if byte = ascii '"' then
      match readText rest with
      | .error fault => fault
      | .ok (text, _) => wrong (.text text)
    else if byte = ascii '[' then wrong .list
    else if byte = ascii '\x7b' then wrong .object
    else .malformed

/-- Reads a string. -/
def readString (bytes : List UInt8) : Reading String :=
  match skipSpace bytes with
  | [] => .error .truncated
  | byte :: rest =>
    if byte = ascii '"' then readText rest else .error (complaint "a string" (byte :: rest))

/-- Accepts a number that is an integer of 64 bits with sign. -/
def toInt64 : Number → Except Fault Int64
  | .float value => .error (.mismatch (.wrongType (Number.float value).found "i64"))
  | .integer value =>
    if Int64.minValue.toInt ≤ value ∧ value ≤ Int64.maxValue.toInt then .ok (Int64.ofInt value)
    else .error (.mismatch (.outOfRange value "i64"))

/-- Reads an integer of 64 bits with sign. -/
def readInt64 (bytes : List UInt8) : Reading Int64 :=
  match skipSpace bytes with
  | [] => .error .truncated
  | byte :: rest =>
    if byte = ascii '-' ∨ isDigit byte then
      match readNumber (byte = ascii '-') (if byte = ascii '-' then rest else byte :: rest) with
      | .error fault => .error fault
      | .ok (number, behind) => (toInt64 number).map fun value => (value, behind)
    else .error (complaint "i64" (byte :: rest))

/-- Reads `null` as nothing, and anything else with the reader given. -/
def readOptional {α : Type} (reader : List UInt8 → Reading α) (bytes : List UInt8) :
    Reading (Option α) :=
  match skipSpace bytes with
  | [] => .error .truncated
  | byte :: rest =>
    if byte = ascii 'n' then (expectWord nullTail rest).map fun behind => (none, behind)
    else mapValue some (reader (byte :: rest))

/-- Reads a name where nothing else may stand. -/
def readQuoted (bytes : List UInt8) : Reading (Option String) :=
  match bytes with
  | [] => .error .truncated
  | byte :: rest =>
    if byte = ascii '"' then mapValue some (readText rest)
    else .error .malformed

/-- Reads the next name of an object whose opening brace, and possibly a member, is behind, or
nothing at its end. -/
def readName (isFirst : Bool) (bytes : List UInt8) : Reading (Option String) :=
  match skipSpace bytes with
  | [] => .error .truncated
  | byte :: rest =>
    if byte = ascii '\x7d' then .ok (none, rest)
    else if isFirst then readQuoted (byte :: rest)
    else if byte = ascii ',' then readQuoted (skipSpace rest)
    else .error .malformed

/-- Reads the colon behind a name. -/
def readColon (bytes : List UInt8) : Except Fault (List UInt8) :=
  match skipSpace bytes with
  | [] => .error .truncated
  | byte :: rest => if byte = ascii ':' then .ok rest else .error .malformed

/-- Whether another element follows in a list whose opening bracket, and possibly an element, is
behind. At the end of the list the closing bracket is left in place. -/
def readElement (isFirst : Bool) (bytes : List UInt8) : Reading Bool :=
  match skipSpace bytes with
  | [] => .error .truncated
  | byte :: rest =>
    if byte = ascii ']' then .ok (false, byte :: rest)
    else if isFirst then .ok (true, byte :: rest)
    else if byte = ascii ',' then
      match skipSpace rest with
      | [] => .error .truncated
      | next :: behind =>
        if next = ascii ']' then .error .malformed else .ok (true, next :: behind)
    else .error .malformed

/-- Reads nothing but spaces up to the end. -/
def readEnd (bytes : List UInt8) : Except Fault Unit :=
  if (skipSpace bytes).isEmpty then .ok () else .error .malformed

/-- A quoted name takes at least one byte. -/
theorem length_of_readQuoted {bytes rest : List UInt8} {name : Option String}
    (h : readQuoted bytes = .ok (name, rest)) : rest.length < bytes.length := by
  unfold readQuoted at h
  split at h
  · cases h
  · split at h
    · obtain ⟨_, hread, _⟩ := exists_of_mapValue h
      have := length_of_readText hread
      simp; omega
    · cases h

/-- A name takes at least one byte, and so does the end of an object. -/
theorem length_of_readName {isFirst : Bool} {bytes rest : List UInt8} {name : Option String}
    (h : readName isFirst bytes = .ok (name, rest)) : rest.length < bytes.length := by
  have hspace := length_skipSpace_le bytes
  unfold readName at h
  split at h
  · cases h
  next byte behind heq =>
    rw [heq] at hspace
    split at h
    · simp only [Except.ok.injEq, Prod.mk.injEq] at h
      obtain ⟨_, rfl⟩ := h
      simp at hspace; omega
    · split at h
      · have := length_of_readQuoted h
        omega
      · split at h
        · have := length_of_readQuoted h
          have := length_skipSpace_le behind
          simp at hspace; omega
        · cases h

/-- A colon takes a byte. -/
theorem length_of_readColon {bytes rest : List UInt8} (h : readColon bytes = .ok rest) :
    rest.length < bytes.length := by
  have hspace := length_skipSpace_le bytes
  unfold readColon at h
  split at h
  · cases h
  next byte behind heq =>
    rw [heq] at hspace
    split at h
    · cases h; simp at hspace; omega
    · cases h

/-- A string takes at least one byte. -/
theorem length_of_readString {bytes rest : List UInt8} {text : String}
    (h : readString bytes = .ok (text, rest)) : rest.length < bytes.length := by
  have hspace := length_skipSpace_le bytes
  unfold readString at h
  split at h
  · cases h
  next byte behind heq =>
    rw [heq] at hspace
    split at h
    · have := length_of_readText h
      simp at hspace; omega
    · cases h

/-- Reads the members of a map from names to strings, on top of those read before. The last of
several equal names prevails. -/
def readMembers (isFirst : Bool) (read : Bindings) (bytes : List UInt8) : Reading Bindings :=
  match _hname : readName isFirst bytes with
  | .error fault => .error fault
  | .ok (none, rest) => .ok (read, rest)
  | .ok (some name, rest) =>
    match _hcolon : readColon rest with
    | .error fault => .error fault
    | .ok behind =>
      match _hvalue : readString behind with
      | .error fault => .error fault
      | .ok (value, further) => readMembers false (read.insert name value) further
termination_by bytes.length
decreasing_by
  have := length_of_readName _hname
  have := length_of_readColon _hcolon
  have := length_of_readString _hvalue
  omega

/-- A map takes at least its closing brace. -/
theorem length_of_readMembers {isFirst : Bool} {read result : Bindings} {bytes rest : List UInt8}
    (h : readMembers isFirst read bytes = .ok (result, rest)) : rest.length < bytes.length := by
  fun_induction readMembers isFirst read bytes with
  | case1 => cases h
  | case2 _ _ _ _ hname => cases h; exact length_of_readName hname
  | case3 => cases h
  | case4 => cases h
  | case5 _ _ _ _ _ hname _ hcolon _ _ hvalue ih =>
    have := length_of_readName hname
    have := length_of_readColon hcolon
    have := length_of_readString hvalue
    have := ih h
    omega

/-- Reads a map from names to strings. -/
def readBindings (bytes : List UInt8) : Reading Bindings :=
  match skipSpace bytes with
  | [] => .error .truncated
  | byte :: rest =>
    if byte = ascii '\x7b' then readMembers true ∅ rest
    else .error (complaint "a map" (byte :: rest))

/-- A map takes at least its braces. -/
theorem length_of_readBindings {bytes rest : List UInt8} {result : Bindings}
    (h : readBindings bytes = .ok (result, rest)) : rest.length < bytes.length := by
  have hspace := length_skipSpace_le bytes
  unfold readBindings at h
  split at h
  · cases h
  next byte behind heq =>
    rw [heq] at hspace
    split at h
    · have := length_of_readMembers h
      simp at hspace; omega
    · cases h

/-- An integer takes at least one byte. -/
theorem length_of_readInt64 {bytes rest : List UInt8} {value : Int64}
    (h : readInt64 bytes = .ok (value, rest)) : rest.length < bytes.length := by
  have hspace := length_skipSpace_le bytes
  unfold readInt64 at h
  split at h
  · cases h
  next byte behind heq =>
    rw [heq] at hspace
    split at h
    · split at h
      · cases h
      next number last hread =>
        have := length_of_readNumber hread
        cases hvalue : toInt64 number with
        | error fault => simp [hvalue, Except.map] at h
        | ok found =>
          simp only [hvalue, Except.map, Except.ok.injEq, Prod.mk.injEq] at h
          rw [← h.2]
          split at this <;> simp at hspace this <;> omega
    · cases h

/-- An optional value takes at least one byte if the value itself does. -/
theorem length_of_readOptional {α : Type} {reader : List UInt8 → Reading α}
    (hreader : ∀ {bytes rest value}, reader bytes = .ok (value, rest) →
      rest.length < bytes.length)
    {bytes rest : List UInt8} {value : Option α}
    (h : readOptional reader bytes = .ok (value, rest)) : rest.length < bytes.length := by
  have hspace := length_skipSpace_le bytes
  unfold readOptional at h
  split at h
  · cases h
  next byte behind heq =>
    rw [heq] at hspace
    split at h
    · cases hword : expectWord nullTail behind with
      | error fault => simp [hword, Except.map] at h
      | ok last =>
        simp only [hword, Except.map, Except.ok.injEq, Prod.mk.injEq] at h
        have := length_of_expectWord hword
        rw [← h.2]
        simp at hspace; omega
    · obtain ⟨_, hread, _⟩ := exists_of_mapValue h
      have := hreader hread
      omega

end Upkeep.Json
