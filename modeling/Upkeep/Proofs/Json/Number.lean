/-
# Whole numbers there and back

The decimal text of a number of 64 bits, with its sign, is read as this number. The reader takes
the digits from the left and multiplies what it has by ten at each, while the text of a number is
best taken apart from the right, at its last digit. So the digits are followed by whatever bytes
there are (`gatherWhole_toDigits`), and the induction may leave the last digit to these. Only at the
end of all digits does it matter what comes next: no number must go on with it.

Back again, only the decimal text of a number is read as an integer. A fraction, an exponent or a
digit beyond those a significand holds makes the reader answer with a real number instead.
-/

import Upkeep.Json.Number
import Upkeep.Proofs.Json.Text
import Upkeep.Proofs.Text.Digits

namespace Upkeep.Json

/-- No number goes on with these bytes. -/
def EndsNumber (rest : List UInt8) : Prop :=
  ∀ byte ∈ rest.head?, isDigit byte = false ∧ byte ≠ ascii '.' ∧ byte ≠ ascii 'e' ∧
    byte ≠ ascii 'E'

/-! ## Digits -/

theorem toNat_digitChar_lt {d : Nat} (hd : d < 10) : (Nat.digitChar d).toNat < 128 := by
  interval_cases d <;> decide

theorem isDigit_digitChar {d : Nat} (hd : d < 10) : isDigit (ascii (Nat.digitChar d)) = true := by
  interval_cases d <;> decide

theorem digitValue_digitChar {d : Nat} (hd : d < 10) :
    digitValue (ascii (Nat.digitChar d)) = d := by
  interval_cases d <;> decide

section Whole

variable {rest : List UInt8}

theorem gatherWhole_digitChar {significand d : Nat} (hd : d < 10)
    (hfits : 10 * significand + d < UInt64.size) :
    gatherWhole ⟨significand, 0⟩ (ascii (Nat.digitChar d) :: rest) =
      gatherWhole ⟨10 * significand + d, 0⟩ rest := by
  rw [gatherWhole, if_pos (isDigit_digitChar hd), digitValue_digitChar hd, if_pos ⟨rfl, hfits⟩]

/-- The first digit is taken as it is. -/
theorem gatherWhole_first {d : Nat} (hd : d < 10) :
    gatherWhole ⟨0, 0⟩ (ascii (Nat.digitChar d) :: rest) = gatherWhole ⟨d, 0⟩ rest := by
  have hvalue : 10 * 0 + d = d := Nat.zero_add d
  have hfits : d < UInt64.size := hd.trans (by decide)
  rw [gatherWhole_digitChar hd (by rwa [hvalue]), hvalue]

theorem gatherWhole_toDigits {n : Nat} (hfits : n < UInt64.size) :
    gatherWhole ⟨0, 0⟩ (bytesOf (Nat.toDigits 10 n) ++ rest) = gatherWhole ⟨n, 0⟩ rest := by
  induction n using Nat.strongRecOn generalizing rest with
  | ind n ih =>
      have hlast : n % 10 < 10 := Nat.mod_lt _ (by decide)
      rcases Nat.lt_or_ge n 10 with hsmall | hlarge
      · rw [Nat.toDigits_of_lt_base hsmall, bytesOf_cons_of_lt (toNat_digitChar_lt hsmall)]
        exact gatherWhole_first hsmall
      -- The last digit is one of the bytes behind the digits of `n / 10`.
      · have hn : 10 * (n / 10) + n % 10 = n := Nat.div_add_mod n 10
        rw [Nat.toDigits_of_base_le (by decide) hlarge, bytesOf_append, List.append_assoc,
          bytesOf_cons_of_lt (toNat_digitChar_lt hlast), ih (n / 10) (by omega) (by omega)]
        exact (gatherWhole_digitChar hlast (by omega)).trans (by rw [hn]; rfl)

variable (hends : EndsNumber rest)

include hends

theorem gatherWhole_of_endsNumber (gathered : Gathered) :
    gatherWhole gathered rest = (gathered, rest) := by
  cases rest with
  | nil => rfl
  | cons byte rest =>
      rw [gatherWhole, if_neg (Bool.eq_false_iff.1 (hends byte rfl).1)]

theorem readFraction_of_endsNumber (negative : Bool) (whole : Gathered) :
    readFraction negative whole rest = readFraction.finish negative whole rest := by
  cases rest with
  | nil => rfl
  | cons byte rest =>
      obtain ⟨-, hpoint, hsmall, hlarge⟩ := hends byte rfl
      rw [readFraction.eq_def]
      dsimp only
      rw [if_neg hpoint, if_neg (not_or.2 ⟨hsmall, hlarge⟩)]

/-- The digits of a number are read to their end. -/
theorem readNumber_toDigits (negative : Bool) {n : Nat} (hfits : n < UInt64.size) :
    readNumber negative (bytesOf (Nat.toDigits 10 n) ++ rest) =
      readFraction.finish negative ⟨n, 0⟩ rest := by
  rcases Nat.eq_zero_or_pos n with rfl | hpos
  · rw [← readFraction_of_endsNumber hends]
    cases rest with
    | nil => rfl
    | cons byte rest =>
        show (if isDigit byte = true then _ else _) = _
        rw [if_neg (Bool.eq_false_iff.1 (hends byte rfl).1)]
  · have hgather : gatherWhole ⟨0, 0⟩ (bytesOf (Nat.toDigits 10 n) ++ rest) =
        gatherWhole ⟨n, 0⟩ rest :=
      gatherWhole_toDigits hfits
    obtain ⟨d, chars, hten, hfirst, hdigits⟩ :=
      Text.Hex.exists_toDigits_eq_cons (by decide : 1 < 10) n
    have hd := hfirst hpos
    have hzero : ascii (Nat.digitChar d) ≠ ascii '0' := by interval_cases d <;> decide
    have hstart : gatherWhole ⟨0, 0⟩ (bytesOf (Nat.toDigits 10 n) ++ rest) =
        gatherWhole ⟨d, 0⟩ (bytesOf chars ++ rest) := by
      rw [hdigits, bytesOf_cons_of_lt (toNat_digitChar_lt hten), List.cons_append,
        gatherWhole_first hten]
    rw [hdigits, bytesOf_cons_of_lt (toNat_digitChar_lt hten), List.cons_append, readNumber.eq_def]
    dsimp only
    rw [if_neg hzero, if_pos (isDigit_digitChar hten), digitValue_digitChar hten, ← hstart, hgather,
      gatherWhole_of_endsNumber hends]
    exact readFraction_of_endsNumber hends negative _

theorem readNumber_natCast {n : Nat} (hfits : n < UInt64.size) :
    readNumber false (bytesOf (Nat.toDigits 10 n) ++ rest) = .ok (.integer n, rest) := by
  rw [readNumber_toDigits hends false hfits]
  rfl

theorem readNumber_negSucc {n : Nat} (hfits : n < Nat.pow 2 63) :
    readNumber true (bytesOf (Nat.toDigits 10 (n + 1)) ++ rest) =
      .ok (.integer (Int.negSucc n), rest) := by
  have hword : n + 1 < UInt64.size := (Nat.succ_le_of_lt hfits).trans_lt (by decide)
  have hfloat : ¬(n + 1 = 0 ∨ Nat.pow 2 63 < n + 1) := by
    rintro (hzero | hlarge)
    · exact Nat.succ_ne_zero n hzero
    · exact Nat.not_lt.2 (Nat.succ_le_of_lt hfits) hlarge
  rw [readNumber_toDigits hends true hword]
  show (if 0 ≠ 0 then _ else if ¬true = true then _ else if _ then _ else _) = _
  rw [if_neg (not_not_intro rfl), if_neg (not_not_intro rfl), if_neg hfloat]
  rfl

end Whole

/-! ## Signs -/

theorem toList_toString_natCast (n : Nat) :
    (toString (n : Int)).toList = Nat.toDigits 10 n := by
  show (toString n).toList = _
  simp

theorem toList_toString_negSucc (n : Nat) :
    (toString (Int.negSucc n)).toList = '-' :: Nat.toDigits 10 (n + 1) := by
  show ("-" ++ toString (n + 1)).toList = _
  simp

theorem toDigits_inj {n m : Nat} (hdigits : Nat.toDigits 10 n = Nat.toDigits 10 m) : n = m := by
  have hvalue := congrArg (fun digits => Nat.ofDigitChars 10 digits 0) hdigits
  simpa using hvalue

theorem cons_minus_ne_toDigits (chars : List Char) (n : Nat) :
    '-' :: chars ≠ Nat.toDigits 10 n := by
  intro hchars
  obtain ⟨d, digits, hten, -, hdigits⟩ :=
    Text.Hex.exists_toDigits_eq_cons (by decide : 1 < 10) n
  have hminus : '-' = Nat.digitChar d := (List.cons.inj (hchars.trans hdigits)).1
  interval_cases d <;> cases hminus

/-- A number has one decimal text only. -/
theorem toString_inj {number other : Int} (htext : toString number = toString other) :
    number = other := by
  have hchars := congrArg String.toList htext
  cases number with
  | ofNat n =>
      have hn : (toString (Int.ofNat n)).toList = Nat.toDigits 10 n := toList_toString_natCast n
      rw [hn] at hchars
      cases other with
      | ofNat m =>
          have hm : (toString (Int.ofNat m)).toList = Nat.toDigits 10 m := toList_toString_natCast m
          rw [toDigits_inj (hchars.trans hm)]
      | negSucc m =>
          rw [toList_toString_negSucc] at hchars
          exact absurd hchars.symm (cons_minus_ne_toDigits _ n)
  | negSucc n =>
      rw [toList_toString_negSucc] at hchars
      cases other with
      | ofNat m =>
          have hm : (toString (Int.ofNat m)).toList = Nat.toDigits 10 m := toList_toString_natCast m
          exact absurd (hchars.trans hm) (cons_minus_ne_toDigits _ m)
      | negSucc m =>
          rw [toList_toString_negSucc] at hchars
          rw [Nat.succ.inj (toDigits_inj (List.cons.inj hchars).2)]

/-! ## Integers that were read -/

/-- The byte of a digit is that of its value. -/
theorem ascii_digitChar {byte : UInt8} (hdigit : isDigit byte = true) :
    ascii (Nat.digitChar (digitValue byte)) = byte := by
  simp only [isDigit, Bool.and_eq_true, decide_eq_true_eq, UInt8.le_iff_toNat_le] at hdigit
  obtain ⟨hlow, hhigh⟩ := hdigit
  have hbyte : UInt8.ofNat byte.toNat = byte := UInt8.ofNat_toNat
  have hlow : 48 ≤ byte.toNat := hlow
  have hhigh : byte.toNat ≤ 57 := hhigh
  rw [digitValue]
  generalize byte.toNat = n at hbyte hlow hhigh
  subst hbyte
  interval_cases n <;> rfl

theorem digitValue_lt {byte : UInt8} (hdigit : isDigit byte = true) : digitValue byte < 10 := by
  simp only [isDigit, Bool.and_eq_true, decide_eq_true_eq, UInt8.le_iff_toNat_le] at hdigit
  have hhigh : byte.toNat ≤ 57 := hdigit.2
  rw [digitValue]
  omega

theorem bytesOf_toDigits_digitValue {byte : UInt8} (hdigit : isDigit byte = true) :
    bytesOf (Nat.toDigits 10 (digitValue byte)) = [byte] := by
  have hten := digitValue_lt hdigit
  rw [Nat.toDigits_of_lt_base hten, bytesOf_cons_of_lt (toNat_digitChar_lt hten),
    ascii_digitChar hdigit, bytesOf_nil]

section Read

variable {negative : Bool} {whole : Gathered} {bytes rest : List UInt8} {number : Int}

/-- Once a digit is passed over, the number is known to be too long. -/
theorem passedOver_gatherWhole (significand : Nat) {passedOver : Nat} (hpassed : passedOver ≠ 0)
    (bytes : List UInt8) : (gatherWhole ⟨significand, passedOver⟩ bytes).1.passedOver ≠ 0 := by
  induction bytes generalizing passedOver with
  | nil => exact hpassed
  | cons byte bytes ih =>
      rw [gatherWhole]
      split
      next =>
        dsimp only
        rw [if_neg fun hfits => hpassed hfits.1]
        exact ih (Nat.succ_ne_zero passedOver)
      next => exact hpassed

/-- If no digit was passed over, the digits are those of what was gathered. -/
theorem toDigits_of_gatherWhole {gathered : Gathered} (hall : gathered.passedOver = 0)
    (hpos : 0 < gathered.significand) (hgather : gatherWhole gathered bytes = (whole, rest))
    (hpassed : whole.passedOver = 0) :
    bytesOf (Nat.toDigits 10 gathered.significand) ++ bytes =
      bytesOf (Nat.toDigits 10 whole.significand) ++ rest := by
  induction bytes generalizing gathered with
  | nil =>
      cases hgather
      rfl
  | cons byte bytes ih =>
      rw [gatherWhole] at hgather
      split at hgather
      next hdigit =>
        dsimp only at hgather
        split at hgather
        next hfits =>
          have hten := digitValue_lt hdigit
          have hsplit := Nat.toDigits_append_toDigits (b := 10) (n := gathered.significand)
            (by decide) hpos hten
          have hnext := ih rfl (by dsimp only; omega) hgather
          rw [← hnext, ← hsplit, bytesOf_append, bytesOf_toDigits_digitValue hdigit,
            List.append_assoc, List.singleton_append]
        next =>
          have hlost := passedOver_gatherWhole gathered.significand
            (Nat.succ_ne_zero gathered.passedOver) bytes
          rw [hgather] at hlost
          exact absurd hpassed hlost
      next =>
        cases hgather
        rfl

theorem assemble_map_ne_integer (significand : Nat) (power : Int) (behind : List UInt8) :
    (assemble negative significand power).map (fun number => (number, behind)) ≠
      .ok (.integer number, rest) := by
  rw [assemble]
  intro hread
  split at hread <;> cases hread

/-- Behind an exponent there is a number with floating point. -/
theorem readExponent_ne_integer (significand : Nat) (power : Int) (bytes : List UInt8) :
    readExponent negative significand power bytes ≠ .ok (.integer number, rest) := by
  fun_cases readExponent negative significand power bytes with
  | case1 | case3 | case4 | case5 =>
      intro hread
      cases hread
  | case2 => exact assemble_map_ne_integer _ _ _

/-- The number of some digits behind a sign or none. Zero has no sign. -/
def SignedBy (negative : Bool) (n : Nat) (number : Int) : Prop :=
  if negative then 0 < n ∧ number = -(n : Int) else number = n

/-- An integer ends with its whole part, of which all digits were taken. -/
theorem of_finish_eq_integer
    (hread : readFraction.finish negative whole bytes = .ok (.integer number, rest)) :
    whole.passedOver = 0 ∧ rest = bytes ∧ SignedBy negative whole.significand number := by
  rw [readFraction.finish] at hread
  split at hread
  next => exact absurd hread (assemble_map_ne_integer _ _ _)
  next hall =>
    refine ⟨not_not.1 hall, ?_⟩
    split at hread
    next hpositive =>
      cases hread
      rw [SignedBy, if_neg hpositive]
      exact ⟨rfl, rfl⟩
    next hnegative =>
      split at hread
      next => cases hread
      next hsmall =>
        cases hread
        rw [SignedBy, if_pos (not_not.1 hnegative)]
        exact ⟨rfl, Nat.pos_of_ne_zero (not_or.1 hsmall).1, rfl⟩

theorem of_readFraction_eq_integer
    (hread : readFraction negative whole bytes = .ok (.integer number, rest)) :
    whole.passedOver = 0 ∧ rest = bytes ∧ SignedBy negative whole.significand number := by
  unfold readFraction at hread
  split at hread
  next => exact of_finish_eq_integer hread
  next mark behind =>
    split at hread
    next =>
      split at hread
      next => cases hread
      next =>
        split at hread
        next =>
          split at hread
          dsimp only at hread
          split at hread
          next => exact absurd hread (assemble_map_ne_integer _ _ _)
          next =>
            split at hread
            next => exact absurd hread (readExponent_ne_integer _ _ _)
            next => exact absurd hread (assemble_map_ne_integer _ _ _)
        next => cases hread
    next =>
      split at hread
      next => exact absurd hread (readExponent_ne_integer _ _ _)
      next => exact of_finish_eq_integer hread

/-- What is read as an integer is written as this integer. -/
theorem exists_toDigits_of_readNumber
    (hread : readNumber negative bytes = .ok (.integer number, rest)) :
    ∃ n : Nat, bytes = bytesOf (Nat.toDigits 10 n) ++ rest ∧ SignedBy negative n number := by
  have hzero : bytesOf (Nat.toDigits 10 0) = [ascii '0'] := rfl
  unfold readNumber at hread
  split at hread
  next => cases hread
  next digit behind =>
    split at hread
    next hfirst =>
      subst hfirst
      split at hread
      next =>
        obtain ⟨-, rfl, hnumber⟩ := of_readFraction_eq_integer hread
        exact ⟨0, hzero.symm, hnumber⟩
      next =>
        split at hread
        next => cases hread
        next =>
          obtain ⟨-, rfl, hnumber⟩ := of_readFraction_eq_integer hread
          exact ⟨0, by rw [hzero]; rfl, hnumber⟩
    next hfirst =>
      split at hread
      next hdigit =>
        have hpos : 0 < digitValue digit := by
          apply Nat.pos_of_ne_zero
          intro hvalue
          have hdigit := ascii_digitChar hdigit
          rw [hvalue] at hdigit
          exact hfirst hdigit.symm
        obtain ⟨hall, rfl, hnumber⟩ := of_readFraction_eq_integer hread
        have hnone : (Gathered.mk (digitValue digit) 0).passedOver = 0 := rfl
        have hdigits := toDigits_of_gatherWhole hnone hpos rfl hall
        rw [bytesOf_toDigits_digitValue hdigit] at hdigits
        exact ⟨_, hdigits, hnumber⟩
      next => cases hread

end Read

end Upkeep.Json
