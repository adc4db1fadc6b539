/-
# Skipping a value

A value that nobody asked for is checked against the grammar and dropped. Nesting of any depth
is allowed: the brackets that are still open are kept in a list, so the reader has one loop and
no recursion into values. Inside skipped strings the escapes must be well formed, but they need
not denote characters, and bytes beyond ASCII are not looked at.
-/

import Upkeep.Json.Cursor

namespace Upkeep.Json

/-- Passes the rest of a string, behind its opening quote, without reading it. -/
def skipText : List UInt8 → Except Fault (List UInt8)
  | [] => .error .truncated
  | byte :: rest =>
    if byte = ascii '"' then .ok rest
    else if byte = ascii '\\' then
      match rest with
      | [] => .error .truncated
      | mark :: behind =>
        if mark = ascii 'u' then
          match behind with
          | a :: b :: c :: d :: further =>
            match hexEscape [a, b, c, d] with
            | .ok _ => skipText further
            | .error fault => .error fault
          | _ => .error .truncated
        else if mark ∈ [ascii '"', ascii '\\', ascii '/', ascii 'b', ascii 'f', ascii 'n',
            ascii 'r', ascii 't'] then skipText behind
        else .error .malformed
    else if byte < 0x20 then .error .malformed
    else skipText rest
termination_by bytes => bytes.length

/-- A skipped string takes at least its closing quote. -/
theorem length_of_skipText {bytes rest : List UInt8} (h : skipText bytes = .ok rest) :
    rest.length < bytes.length := by
  fun_induction skipText bytes with
  | case1 => cases h
  | case2 => cases h; simp
  | case3 => cases h
  | case4 _ _ _ _ _ _ _ _ ih => have := ih h; simp; omega
  | case5 => cases h
  | case6 => cases h
  | case7 _ _ _ _ _ ih => have := ih h; simp; omega
  | case8 => cases h
  | case9 => cases h
  | case10 _ _ _ _ _ ih => have := ih h; simp; omega

/-- Passes an exponent behind its mark: an optional sign and at least one digit. -/
def skipExponent (bytes : List UInt8) : Except Fault (List UInt8) :=
  let unsigned :=
    match bytes with
    | [] => []
    | sign :: rest => if sign = ascii '+' ∨ sign = ascii '-' then rest else sign :: rest
  match unsigned with
  | [] => .error .malformed
  | digit :: rest => if isDigit digit then .ok (skipDigits rest) else .error .malformed

/-- Passes what may follow the whole part of a number: a fraction, an exponent, or both. -/
def skipFraction : List UInt8 → Except Fault (List UInt8)
  | [] => .ok []
  | mark :: rest =>
    if mark = ascii '.' then
      match rest with
      | [] => .error .malformed
      | digit :: behind =>
        if isDigit digit then
          match skipDigits behind with
          | [] => .ok []
          | mark :: further =>
            if mark = ascii 'e' ∨ mark = ascii 'E' then skipExponent further
            else .ok (mark :: further)
        else .error .malformed
    else if mark = ascii 'e' ∨ mark = ascii 'E' then skipExponent rest
    else .ok (mark :: rest)

/-- Passes a number without its sign. A whole part has no leading zeros. -/
def skipNumber : List UInt8 → Except Fault (List UInt8)
  | [] => .error .malformed
  | digit :: rest =>
    if digit = ascii '0' then
      match rest with
      | [] => .ok []
      | next :: behind =>
        if isDigit next then .error .malformed else skipFraction (next :: behind)
    else if isDigit digit then skipFraction (skipDigits rest)
    else .error .malformed

/-- A skipped exponent takes at least one byte. -/
theorem length_of_skipExponent {bytes rest : List UInt8} (h : skipExponent bytes = .ok rest) :
    rest.length < bytes.length := by
  unfold skipExponent at h
  have hdrop : (match bytes with
      | [] => []
      | sign :: rest => if sign = ascii '+' ∨ sign = ascii '-' then rest else sign :: rest).length
        ≤ bytes.length := by
    split
    · simp
    · split <;> simp
  simp only at h
  split at h
  · cases h
  next digit behind heq =>
    rw [heq] at hdrop
    split at h
    · cases h
      have := length_skipDigits_le behind
      simp at hdrop; omega
    · cases h

/-- What follows a whole part leaves no more than there was. -/
theorem length_of_skipFraction {bytes rest : List UInt8} (h : skipFraction bytes = .ok rest) :
    rest.length ≤ bytes.length := by
  unfold skipFraction at h
  split at h
  · cases h; simp
  next mark behind =>
    split at h
    · split at h
      · cases h
      next digit further =>
        have hdigits := length_skipDigits_le further
        split at h
        · split at h
          · cases h; simp
          next mark' last heq =>
            rw [heq] at hdigits
            split at h
            · have := length_of_skipExponent h
              simp at hdigits ⊢; omega
            · cases h; simp at hdigits ⊢; omega
        · cases h
    · split at h
      · have := length_of_skipExponent h
        simp; omega
      · cases h; simp

/-- A skipped number takes at least one byte. -/
theorem length_of_skipNumber {bytes rest : List UInt8} (h : skipNumber bytes = .ok rest) :
    rest.length < bytes.length := by
  unfold skipNumber at h
  split at h
  · cases h
  next digit behind =>
    split at h
    · split at h
      · cases h; simp
      · split at h
        · cases h
        · have := length_of_skipFraction h
          simp at this ⊢; omega
    · split at h
      · have := length_of_skipFraction h
        have := length_skipDigits_le behind
        simp; omega
      · cases h

/-- Passes a word, a number or a string, which starts with the byte `first`. -/
def skipScalar (first : UInt8) (rest : List UInt8) : Except Fault (List UInt8) :=
  if first = ascii '"' then skipText rest
  else if first = ascii '-' then skipNumber rest
  else if isDigit first then skipNumber (first :: rest)
  else if first = ascii 'n' then expectWord nullTail rest
  else if first = ascii 't' then expectWord trueTail rest
  else if first = ascii 'f' then expectWord falseTail rest
  else .error .malformed

/-- A skipped scalar takes at least its first byte. -/
theorem length_of_skipScalar {first : UInt8} {bytes rest : List UInt8}
    (h : skipScalar first bytes = .ok rest) : rest.length ≤ bytes.length := by
  unfold skipScalar at h
  split at h
  · exact Nat.le_of_lt (length_of_skipText h)
  split at h
  · exact Nat.le_of_lt (length_of_skipNumber h)
  split at h
  · have := length_of_skipNumber h
    simp at this; omega
  split at h
  · exact length_of_expectWord h
  split at h
  · exact length_of_expectWord h
  split at h
  · exact length_of_expectWord h
  · cases h

/-- A bracket that is still open. -/
inductive Bracket where
  | list
  | object
deriving DecidableEq, Repr

/-- The byte that closes a bracket. -/
def Bracket.closing : Bracket → UInt8
  | .list => ascii ']'
  | .object => ascii '}'

/-- What the grammar allows next. -/
inductive Place where
  /-- A value. -/
  | value
  /-- The first entry of the innermost bracket, or its end. -/
  | opened
  /-- A comma with a further entry, or the end of the innermost bracket. -/
  | closed
deriving DecidableEq, Repr

/-- Passes a member's name and colon. -/
def skipName (bytes : List UInt8) : Except Fault (List UInt8) :=
  match skipSpace bytes with
  | [] => .error .truncated
  | quote :: rest =>
    if quote = ascii '"' then
      match skipText rest with
      | .error fault => .error fault
      | .ok behind =>
        match skipSpace behind with
        | [] => .error .truncated
        | colon :: further => if colon = ascii ':' then .ok further else .error .malformed
    else .error .malformed

/-- A name takes at least its quotes. -/
theorem length_of_skipName {bytes rest : List UInt8} (h : skipName bytes = .ok rest) :
    rest.length < bytes.length := by
  unfold skipName at h
  have hspace := length_skipSpace_le bytes
  split at h
  · cases h
  next quote behind heq =>
    rw [heq] at hspace
    split at h
    · split at h
      · cases h
      next further htext =>
        have := length_of_skipText htext
        have hinner := length_skipSpace_le further
        split at h
        · cases h
        next colon last hcolon =>
          rw [hcolon] at hinner
          split at h
          · cases h
            simp at hspace hinner; omega
          · cases h
    · cases h

/-- Passes the rest of a value inside the open brackets, innermost first. After the last bracket
is closed nothing more is looked at. -/
def skipWithin (place : Place) (brackets : List Bracket) (bytes : List UInt8) :
    Except Fault (List UInt8) :=
  match _hspace : skipSpace bytes with
  | [] => .error .truncated
  | byte :: rest =>
    match place with
    | .value =>
      if byte = ascii '[' then skipWithin .opened (.list :: brackets) rest
      else if byte = ascii '\x7b' then skipWithin .opened (.object :: brackets) rest
      else
        match _hscalar : skipScalar byte rest with
        | .error fault => .error fault
        | .ok behind => if brackets.isEmpty then .ok behind else skipWithin .closed brackets behind
    | .opened =>
      match brackets with
      | [] => .ok (byte :: rest)
      | bracket :: outer =>
        if byte = bracket.closing then
          if outer.isEmpty then .ok rest else skipWithin .closed outer rest
        else
          match bracket with
          | .list => skipWithin .value (.list :: outer) (byte :: rest)
          | .object =>
            match _hname : skipName (byte :: rest) with
            | .error fault => .error fault
            | .ok behind => skipWithin .value (.object :: outer) behind
    | .closed =>
      match brackets with
      | [] => .ok (byte :: rest)
      | bracket :: outer =>
        if byte = bracket.closing then
          if outer.isEmpty then .ok rest else skipWithin .closed outer rest
        else if byte = ascii ',' then
          match bracket with
          | .list => skipWithin .value (.list :: outer) rest
          | .object =>
            match _hname : skipName rest with
            | .error fault => .error fault
            | .ok behind => skipWithin .value (.object :: outer) behind
        else .error .malformed
termination_by 2 * bytes.length + (if place = .opened then 1 else 0)
decreasing_by
  all_goals
    have hle := length_skipSpace_le bytes
    rw [_hspace] at hle
    try have hlen := length_of_skipScalar _hscalar
    try have hlen := length_of_skipName _hname
    simp at *
    omega

/-- Passes one value. -/
def skipValue (bytes : List UInt8) : Except Fault (List UInt8) :=
  skipWithin .value [] bytes

/-- What is passed within brackets adds nothing. -/
theorem length_of_skipWithin {place : Place} {brackets : List Bracket} {bytes rest : List UInt8}
    (h : skipWithin place brackets bytes = .ok rest) : rest.length ≤ bytes.length := by
  fun_induction skipWithin place brackets bytes <;>
    grind [→ length_of_skipSpace, → length_of_skipScalar, → length_of_skipName]

/-- A skipped value adds nothing. -/
theorem length_of_skipValue {bytes rest : List UInt8} (h : skipValue bytes = .ok rest) :
    rest.length ≤ bytes.length :=
  length_of_skipWithin h

end Upkeep.Json
