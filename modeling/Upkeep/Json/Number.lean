/-
# Reading numbers

A number is an integer when it has neither fraction nor exponent and fits in 64 bits: up to
`2 ^ 64 - 1`, and down to `-2 ^ 63`. Every other number is floating point, computed from at most
64 bits of its digits and a power of ten; digits beyond those only shift the power. A number too
large for a double is no number.
-/

import Upkeep.Json.Cursor

namespace Upkeep.Json

/-- A number as it is read. A zero behind a minus sign is floating point. -/
inductive Number where
  | integer (value : Int)
  | float (value : Float)

/-- Digits gathered so far: at most 64 bits of them, and how many were passed over since. -/
structure Gathered where
  significand : Nat
  passedOver : Nat

/-- Takes the digits of the whole part. Once a digit does not fit, all later ones are passed
over. -/
def gatherWhole (gathered : Gathered) : List UInt8 → Gathered × List UInt8
  | [] => (gathered, [])
  | byte :: rest =>
    if isDigit byte then
      let extended := 10 * gathered.significand + digitValue byte
      if gathered.passedOver = 0 ∧ extended < UInt64.size then gatherWhole ⟨extended, 0⟩ rest
      else gatherWhole ⟨gathered.significand, gathered.passedOver + 1⟩ rest
    else (gathered, byte :: rest)

/-- Takes the digits of the fraction, as long as they fit; the others are passed over without
being counted. Gives the significand, the number of digits taken, and what is left. -/
def gatherFraction (significand taken : Nat) : List UInt8 → Nat × Nat × List UInt8
  | [] => (significand, taken, [])
  | byte :: rest =>
    if isDigit byte then
      let extended := 10 * significand + digitValue byte
      if extended < UInt64.size then gatherFraction extended (taken + 1) rest
      else (significand, taken, skipDigits rest)
    else (significand, taken, byte :: rest)

/-- Multiplies by a power of ten in steps that a double can hold. A power that is too low ends
at zero; one that is too high, or a product beyond the largest double, gives none. -/
def shiftDecimal (value : Float) (power : Int) : Option Float :=
  if 308 < power then
    if value == 0.0 then some value else none
  else if 0 ≤ power then
    let product := value * Float.ofScientific 1 false power.toNat
    if product.isInf then none else some product
  else if -308 ≤ power then some (value / Float.ofScientific 1 false (-power).toNat)
  else if value == 0.0 then some value
  else shiftDecimal (value / Float.ofScientific 1 false 308) (power + 308)
termination_by (-power).toNat
decreasing_by omega

/-- The floating-point number `significand * 10 ^ power` with a sign. -/
def assemble (negative : Bool) (significand : Nat) (power : Int) : Except Fault Number :=
  match shiftDecimal (UInt64.ofNat significand).toFloat power with
  | none => .error .malformed
  | some value => .ok (.float (if negative then -value else value))

/-- Reads the digits of an exponent, up to the bound of 32 bits, behind those that gave `value`.
Gives none at the first digit that passes the bound. -/
def gatherExponent (value : Nat) : List UInt8 → Option Nat × List UInt8
  | [] => (some value, [])
  | byte :: rest =>
    if isDigit byte then
      let extended := 10 * value + digitValue byte
      if extended < Nat.pow 2 31 then gatherExponent extended rest else (none, skipDigits rest)
    else (some value, byte :: rest)

/-- Reads an exponent behind its mark and completes the number. An exponent too large to count
makes a nonzero number too large, or a zero. -/
def readExponent (negative : Bool) (significand : Nat) (power : Int) (bytes : List UInt8) :
    Reading Number :=
  let (lowering, unsigned) :=
    match bytes with
    | [] => (false, [])
    | sign :: rest =>
      if sign = ascii '+' then (false, rest)
      else if sign = ascii '-' then (true, rest)
      else (false, sign :: rest)
  match unsigned with
  | [] => .error .truncated
  | digit :: rest =>
    if isDigit digit then
      match gatherExponent (digitValue digit) rest with
      | (some exponent, behind) =>
        let total := if lowering then power - exponent else power + exponent
        (assemble negative significand total).map fun number => (number, behind)
      | (none, behind) =>
        if significand ≠ 0 ∧ ¬ lowering then .error .malformed
        else .ok (.float (if negative then -0.0 else 0.0), behind)
    else .error .malformed

/-- Completes a number behind its whole part. -/
def readFraction (negative : Bool) (whole : Gathered) : List UInt8 → Reading Number
  | [] => finish []
  | mark :: rest =>
    if mark = ascii '.' then
      match rest with
      | [] => .error .truncated
      | digit :: _ =>
        if isDigit digit then
          let (significand, taken, behind) := gatherFraction whole.significand 0 rest
          let power := Int.ofNat whole.passedOver - taken
          match behind with
          | [] => (assemble negative significand power).map fun number => (number, [])
          | mark :: further =>
            if mark = ascii 'e' ∨ mark = ascii 'E' then
              readExponent negative significand power further
            else (assemble negative significand power).map fun number => (number, behind)
        else .error .malformed
    else if mark = ascii 'e' ∨ mark = ascii 'E' then
      readExponent negative whole.significand whole.passedOver rest
    else finish (mark :: rest)
where
  /-- A number that ends with its whole part. -/
  finish (behind : List UInt8) : Reading Number :=
    if whole.passedOver ≠ 0 then
      (assemble negative whole.significand whole.passedOver).map fun number => (number, behind)
    else if ¬ negative then .ok (.integer whole.significand, behind)
    else if whole.significand = 0 ∨ Nat.pow 2 63 < whole.significand then
      .ok (.float (-(UInt64.ofNat whole.significand).toFloat), behind)
    else .ok (.integer (-Int.ofNat whole.significand), behind)

/-- Reads a number behind its sign. A whole part has no leading zeros. -/
def readNumber (negative : Bool) : List UInt8 → Reading Number
  | [] => .error .truncated
  | digit :: rest =>
    if digit = ascii '0' then
      match rest with
      | [] => readFraction negative ⟨0, 0⟩ []
      | next :: behind =>
        if isDigit next then .error .malformed
        else readFraction negative ⟨0, 0⟩ (next :: behind)
    else if isDigit digit then
      let (whole, behind) := gatherWhole ⟨digitValue digit, 0⟩ rest
      readFraction negative whole behind
    else .error .malformed

/-- Gathering whole digits leaves no more than there was. -/
theorem length_gatherWhole_le (gathered : Gathered) (bytes : List UInt8) :
    (gatherWhole gathered bytes).2.length ≤ bytes.length := by
  fun_induction gatherWhole gathered bytes <;> simp_all <;> omega

/-- Gathering the digits of a fraction leaves no more than there was. -/
theorem length_gatherFraction_le (significand taken : Nat) (bytes : List UInt8) :
    (gatherFraction significand taken bytes).2.2.length ≤ bytes.length := by
  fun_induction gatherFraction significand taken bytes with
  | case1 => simp
  | case2 _ _ _ _ _ _ _ ih => simp at ih ⊢; omega
  | case3 _ _ _ rest => have := length_skipDigits_le rest; simp; omega
  | case4 => simp

/-- Gathering the digits of an exponent leaves no more than there was. -/
theorem length_gatherExponent_le (value : Nat) (bytes : List UInt8) :
    (gatherExponent value bytes).2.length ≤ bytes.length := by
  fun_induction gatherExponent value bytes with
  | case1 => simp
  | case2 _ _ _ _ _ _ ih => simp at ih ⊢; omega
  | case3 _ _ rest => have := length_skipDigits_le rest; simp; omega
  | case4 => simp

/-- A completed number ends where its reader says. -/
theorem eq_of_assemble_map {negative : Bool} {significand : Nat} {power : Int} {number : Number}
    {behind rest : List UInt8}
    (h : (assemble negative significand power).map (fun number => (number, behind)) =
      .ok (number, rest)) : rest = behind := by
  cases hassemble : assemble negative significand power with
  | error fault => simp [hassemble, Except.map] at h
  | ok value =>
    simp only [hassemble, Except.map, Except.ok.injEq, Prod.mk.injEq] at h
    exact h.2.symm

/-- An exponent takes at least one digit. -/
theorem length_of_readExponent {negative : Bool} {significand : Nat} {power : Int}
    {bytes rest : List UInt8} {number : Number}
    (h : readExponent negative significand power bytes = .ok (number, rest)) :
    rest.length < bytes.length := by
  unfold readExponent at h
  split at h
  next lowering unsigned hsign =>
    have hunsigned : unsigned.length ≤ bytes.length := by
      split at hsign
      · cases hsign; simp
      · split at hsign
        · cases hsign; simp
        · split at hsign <;> cases hsign <;> simp
    split at h
    · cases h
    next digit behind =>
      split at h
      · have hgather := length_gatherExponent_le (digitValue digit) behind
        split at h
        next exponent further heq =>
          rw [heq] at hgather
          have := eq_of_assemble_map h
          subst this
          simp at hunsigned hgather; omega
        next further heq =>
          rw [heq] at hgather
          split at h
          · cases h
          · simp only [Except.ok.injEq, Prod.mk.injEq] at h
            obtain ⟨_, rfl⟩ := h
            simp at hunsigned hgather; omega
      · cases h

/-- A number that ends with its whole part leaves what is behind it. -/
theorem eq_of_finish {negative : Bool} {whole : Gathered} {behind rest : List UInt8}
    {number : Number} (h : readFraction.finish negative whole behind = .ok (number, rest)) :
    rest = behind := by
  unfold readFraction.finish at h
  split at h
  · exact eq_of_assemble_map h
  · split at h
    · simp only [Except.ok.injEq, Prod.mk.injEq] at h; exact h.2.symm
    · split at h <;>
      · simp only [Except.ok.injEq, Prod.mk.injEq] at h; exact h.2.symm

/-- What follows a whole part leaves no more than there was. -/
theorem length_of_readFraction {negative : Bool} {whole : Gathered} {bytes rest : List UInt8}
    {number : Number} (h : readFraction negative whole bytes = .ok (number, rest)) :
    rest.length ≤ bytes.length := by
  unfold readFraction at h
  split at h
  · simp [eq_of_finish h]
  next mark behind =>
    split at h
    · split at h
      · cases h
      next digit further =>
        split at h
        · split at h
          next significand taken left hgather =>
            have hlength := length_gatherFraction_le whole.significand 0 (digit :: further)
            rw [hgather] at hlength
            simp only at h
            split at h
            · simp [eq_of_assemble_map h]
            next mark' last =>
              split at h
              · have := length_of_readExponent h
                simp at hlength ⊢; omega
              · rw [eq_of_assemble_map h]
                simp at hlength ⊢; omega
        · cases h
    · split at h
      · have := length_of_readExponent h
        simp; omega
      · simp [eq_of_finish h]

/-- A number takes at least one byte. -/
theorem length_of_readNumber {negative : Bool} {bytes rest : List UInt8} {number : Number}
    (h : readNumber negative bytes = .ok (number, rest)) : rest.length < bytes.length := by
  unfold readNumber at h
  split at h
  · cases h
  next digit behind =>
    split at h
    · split at h
      · have := length_of_readFraction h
        simp at this ⊢; omega
      · split at h
        · cases h
        · have := length_of_readFraction h
          simp at this ⊢; omega
    · split at h
      · have hgather := length_gatherWhole_le ⟨digitValue digit, 0⟩ behind
        have := length_of_readFraction h
        simp; omega
      · cases h

end Upkeep.Json
