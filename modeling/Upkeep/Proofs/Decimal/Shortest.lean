/-
# Seventeen digits are enough

The search for the shortest decimal of a double tries one number of digits after the other. With
seventeen of them the steps of the decimal grid are smaller than the neighbourhood of the double,
so that the point of the grid next to it is taken for it, and the search never ends in vain. What
it finds is in the neighbourhood, which does not reach down to zero; so the decimal of a positive
number has digits.
-/

import Mathlib.Tactic.Linarith
import Mathlib.Tactic.Positivity
import Mathlib.Tactic.Ring
import Upkeep.Decimal.Shortest

namespace Upkeep.Decimal

/-! ## Powers of ten -/

theorem scale_eq (num den : Nat) (power : Int) :
    scale num den power = (num * 10 ^ power.toNat, den * 10 ^ (-power).toNat) := by
  cases power with
  | ofNat k => simp [scale]
  | negSucc k => simp [scale]

/-- Steps are counted until the denominator is reached, if it can be reached. -/
theorem le_stepsToReach {num den fuel n : Nat} (hfuel : den ≤ num * 10 ^ fuel) :
    n ≤ stepsToReach num den fuel n ∧ den ≤ num * 10 ^ (stepsToReach num den fuel n - n) := by
  induction fuel generalizing num n with
  | zero => simpa [stepsToReach] using hfuel
  | succ fuel ih =>
    rw [stepsToReach]
    split
    next hreached => simpa using hreached
    next =>
      have hfuel' : den ≤ num * 10 * 10 ^ fuel := by
        rwa [Nat.mul_assoc, ← Nat.pow_succ']
      obtain ⟨hle, hreach⟩ := ih (n := n + 1) hfuel'
      generalize stepsToReach (num * 10) den fuel (n + 1) = steps at hle hreach ⊢
      have hsteps : (steps - (n + 1)).succ = steps - n := by omega
      refine ⟨by omega, ?_⟩
      rwa [Nat.mul_assoc, ← Nat.pow_succ', hsteps] at hreach

/-- A number is at least the power of ten below its magnitude. -/
theorem le_of_magnitude {num den : Nat} (hden : 0 < den) (hreach : den ≤ num * 10 ^ 400) :
    den * 10 ^ (magnitude num den - 1).toNat ≤ num * 10 ^ (1 - magnitude num den).toNat := by
  rw [magnitude]
  split
  next hle =>
    have hpositive : 1 ≤ num / den := (Nat.le_div_iff_mul_le hden).2 (by omega)
    have hpower : 10 ^ ((Nat.toDigits 10 (num / den)).length - 1) ≤ num / den := by
      by_cases hsingle : (Nat.toDigits 10 (num / den)).length ≤ 1
      · rwa [Nat.sub_eq_zero_of_le hsingle]
      · refine Nat.le_of_not_lt fun hlt => ?_
        have := (Nat.length_toDigits_le_iff (by decide) (by omega)).2 hlt
        omega
    have hbelow := (Nat.le_div_iff_mul_le hden).1 hpower
    generalize (Nat.toDigits 10 (num / den)).length = length at hbelow ⊢
    have hlow : ((length : Int) - 1).toNat = length - 1 := by omega
    rw [hlow, Nat.mul_comm]
    exact hbelow.trans (Nat.le_mul_of_pos_right num (Nat.pow_pos (by decide)))
  next =>
    have hsteps := (le_stepsToReach (n := 0) hreach).2
    generalize stepsToReach num den 400 0 = steps at hsteps ⊢
    rw [Int.ofNat_eq_natCast]
    have hlow : (1 - (steps : Int) - 1).toNat = 0 := by omega
    have hhigh : (1 - (1 - (steps : Int))).toNat = steps - 0 := by omega
    rwa [hlow, hhigh, Nat.pow_zero, Nat.mul_one]

/-- Of the multiples of a step, one next to a number is between two bounds around that number if
these are further apart than the step. -/
theorem multiple_between {num div low high : Nat} (hdiv : 0 < div) (hlow : low < num)
    (hhigh : num < high) (hwide : div < high - low) :
    (low < num / div * div ∧ num / div * div < high) ∨
      (low < (num / div + 1) * div ∧ (num / div + 1) * div < high) := by
  have hsplit := Nat.div_add_mod' num div
  have hrest := Nat.mod_lt num hdiv
  rw [Nat.succ_mul]
  omega

/-! ## Decimals in a neighbourhood -/

namespace Neighbourhood

/-- A neighbourhood lies on both sides of its number and does not reach down to zero, and sixteen
digits behind the first one of the number are finer than it. -/
structure Fine (around : Neighbourhood) : Prop where
  low_pos : 0 < around.low
  low_lt : around.low < around.value
  lt_high : around.value < around.high
  lt_width : around.value < 10 ^ 16 * (around.high - around.low)
  den_pos : 0 < around.den
  den_le : around.den ≤ around.value * 10 ^ 400

variable (around : Neighbourhood)

/-- What lies strictly between the ends is taken for the value. -/
theorem holds_of_between {digits : Nat} {power : Int}
    (hlow : around.low * 10 ^ (-power).toNat < digits * (around.den * 10 ^ power.toNat))
    (hhigh : digits * (around.den * 10 ^ power.toNat) < around.high * 10 ^ (-power).toNat) :
    around.holds ⟨digits, power⟩ = true := by
  simp only [holds, scale_eq, Int.neg_neg]
  split
  · simp only [Bool.and_eq_true, decide_eq_true_eq]
    exact ⟨hlow.le, hhigh.le⟩
  · simp only [Bool.and_eq_true, decide_eq_true_eq]
    exact ⟨hlow, hhigh⟩

/-- Where the neighbourhood does not reach down to zero, a decimal in it has digits. -/
theorem digits_pos_of_holds (hlow : 0 < around.low) {number : Scaled}
    (hholds : around.holds number = true) : 0 < number.digits := by
  have hpower : 0 < around.low * 10 ^ (-number.power).toNat :=
    Nat.mul_pos hlow (Nat.pow_pos (by decide))
  refine Nat.pos_of_ne_zero fun hzero => ?_
  simp only [holds, scale_eq, Int.neg_neg, hzero, Nat.zero_mul] at hholds
  split at hholds <;> simp only [Bool.and_eq_true, decide_eq_true_eq] at hholds <;> omega

/-- A tenth of the digits at ten times the power are the same number. -/
theorem holds_ten_mul (tens : Nat) (power : Int) :
    around.holds ⟨10 * tens, power⟩ = around.holds ⟨tens, power + 1⟩ := by
  have hten : (0 : Nat) < 10 := by decide
  simp only [holds, scale_eq, Int.neg_neg]
  rcases lt_or_ge power 0 with hpower | hpower
  · have hsame : (power + 1).toNat = power.toNat := by omega
    have hless : (-power).toNat = (-(power + 1)).toNat + 1 := by omega
    have hends : ∀ bound, bound * 10 ^ ((-(power + 1)).toNat + 1) =
        10 * (bound * 10 ^ (-(power + 1)).toNat) := by
      intro bound
      ring
    rw [hsame, hless, hends, hends, Nat.mul_assoc 10 tens]
    simp only [Nat.mul_le_mul_left_iff hten, Nat.mul_lt_mul_left hten]
  · have hsame : (-(power + 1)).toNat = (-power).toNat := by omega
    have hmore : (power + 1).toNat = power.toNat + 1 := by omega
    have hdigits : 10 * tens * (around.den * 10 ^ power.toNat) =
        tens * (around.den * 10 ^ (power.toNat + 1)) := by ring
    rw [hsame, hmore, hdigits]

/-- A carry writes the same number. -/
theorem holds_carry {count : Nat} (hcount : 0 < count) {number : Scaled}
    (hholds : around.holds number = true) : around.holds (carry count number) = true := by
  obtain ⟨digits, power⟩ := number
  rw [carry]
  split
  next hfull =>
    obtain ⟨tens, rfl⟩ : ∃ tens, digits = 10 * tens := by
      obtain ⟨k, rfl⟩ := Nat.exists_eq_add_of_le' hcount
      exact ⟨10 ^ k, hfull.trans (Nat.pow_succ' ..)⟩
    rwa [Nat.mul_div_cancel_left tens (by decide), ← holds_ten_mul]
  · exact hholds

/-- What is found on a grid is taken for the value. -/
theorem holds_of_onGrid? {count : Nat} (hcount : 0 < count) {power : Int} {number : Scaled}
    (hfound : around.onGrid? count power = some number) : around.holds number = true := by
  simp only [onGrid?] at hfound
  split at hfound
  next hdown hup =>
    split at hfound
    · cases hfound
      exact hdown
    · cases hfound
      exact around.holds_carry hcount hup
  next hdown _ =>
    cases hfound
    exact hdown
  next hup =>
    cases hfound
    exact around.holds_carry hcount hup
  next => cases hfound

/-- A grid with steps shorter than the neighbourhood has a point of it next to the value. -/
theorem isSome_onGrid? (hfine : around.Fine) (count : Nat) {power : Int}
    (hstep : around.den * 10 ^ power.toNat < (around.high - around.low) * 10 ^ (-power).toNat) :
    (around.onGrid? count power).isSome = true := by
  have hzoom : 0 < 10 ^ (-power).toNat := Nat.pow_pos (by decide)
  have hdiv : 0 < around.den * 10 ^ power.toNat :=
    Nat.mul_pos hfine.den_pos (Nat.pow_pos (by decide))
  rw [Nat.sub_mul] at hstep
  have hnext := multiple_between hdiv (Nat.mul_lt_mul_of_pos_right hfine.low_lt hzoom)
    (Nat.mul_lt_mul_of_pos_right hfine.lt_high hzoom) hstep
  simp only [onGrid?, scale_eq, Int.neg_neg]
  split
  · split <;> rfl
  · rfl
  · rfl
  next hdown hup =>
    rcases hnext with ⟨habove, hbelow⟩ | ⟨habove, hbelow⟩
    · cases hdown.symm.trans (around.holds_of_between habove hbelow)
    · cases hup.symm.trans (around.holds_of_between habove hbelow)

end Neighbourhood

/-! ## Doubles -/

section Doubles

variable {mantissa : Nat} {exponent : Int}

theorem two_pow_le_ten_pow {places n : Nat} (hplaces : places ≤ 3 * n) : 2 ^ places ≤ 10 ^ n := by
  refine (Nat.pow_le_pow_right (by decide) hplaces).trans ?_
  rw [Nat.pow_mul]
  exact Nat.pow_le_pow_left (by decide) n

theorem Neighbourhood.fine_ofDyadic (hpositive : 0 < mantissa) (hbits : mantissa < 2 ^ 53)
    (hexponent : -1074 ≤ exponent) : (Neighbourhood.ofDyadic mantissa exponent).Fine := by
  have hunit : 0 < if exponent < 2 then 1 else Nat.pow 2 (exponent - 2).toNat := by
    split
    · exact Nat.one_pos
    · exact Nat.two_pow_pos _
  have hden : (0 < if exponent < 2 then Nat.pow 2 (2 - exponent).toNat else 1) ∧
      (if exponent < 2 then Nat.pow 2 (2 - exponent).toNat else 1) ≤ 10 ^ 400 := by
    split
    · refine ⟨Nat.two_pow_pos _, ?_⟩
      exact two_pow_le_ten_pow (by omega)
    · exact ⟨Nat.one_pos, Nat.succ_le_of_lt (by positivity)⟩
  simp only [Neighbourhood.ofDyadic]
  generalize (if exponent < 2 then 1 else Nat.pow 2 (exponent - 2).toNat) = unit at *
  generalize (if exponent < 2 then Nat.pow 2 (2 - exponent).toNat else 1) = den at *
  -- The numbers below are twice as dense only next to a mantissa that is far from filling up.
  have hbelow : ∃ below, (if mantissa = Nat.pow 2 52 ∧ -1074 < exponent then 1 else 2) = below ∧
      1 ≤ below ∧ below < 4 * mantissa ∧ 4 * mantissa < 10 ^ 16 * (2 + below) := by
    refine ⟨_, rfl, ?_⟩
    split
    next hleast =>
      rw [hleast.1]
      decide
    next => omega
  obtain ⟨below, hchoice, hsome, hless, hwide⟩ := hbelow
  rw [hchoice]
  have hwidth : 4 * mantissa + 2 - (4 * mantissa - below) = 2 + below := by omega
  constructor
  case low_pos => exact Nat.mul_pos (by omega) hunit
  case low_lt => exact Nat.mul_lt_mul_of_pos_right (by omega) hunit
  case lt_high => exact Nat.mul_lt_mul_of_pos_right (by omega) hunit
  case lt_width =>
    rw [← Nat.sub_mul, hwidth, ← Nat.mul_assoc]
    exact Nat.mul_lt_mul_of_pos_right hwide hunit
  case den_pos => exact hden.1
  case den_le => exact hden.2.trans (Nat.le_mul_of_pos_left _ (Nat.mul_pos (by omega) hunit))

/-- Sixteen powers of ten may be taken from one side of a comparison to the other. -/
theorem mul_pow_lt_of_pow_le {num den width : Nat} {power : Int}
    (hle : den * 10 ^ (power + 16).toNat ≤ num * 10 ^ (-(power + 16)).toNat)
    (hlt : num < 10 ^ 16 * width) :
    den * 10 ^ power.toNat < width * 10 ^ (-power).toNat := by
  have hpowers : (power + 16).toNat + (-power).toNat =
      power.toNat + (16 + (-(power + 16)).toNat) := by omega
  have hdown : 0 < 10 ^ (-(power + 16)).toNat * 10 ^ (-power).toNat := by positivity
  refine Nat.lt_of_mul_lt_mul_right (a := 10 ^ (16 + (-(power + 16)).toNat)) ?_
  calc den * 10 ^ power.toNat * 10 ^ (16 + (-(power + 16)).toNat)
      = den * 10 ^ (power + 16).toNat * 10 ^ (-power).toNat := by
        rw [Nat.mul_assoc, ← Nat.pow_add, ← hpowers, Nat.pow_add, Nat.mul_assoc]
    _ ≤ num * 10 ^ (-(power + 16)).toNat * 10 ^ (-power).toNat :=
        Nat.mul_le_mul_right _ hle
    _ < 10 ^ 16 * width * (10 ^ (-(power + 16)).toNat * 10 ^ (-power).toNat) := by
        rw [Nat.mul_assoc]
        exact Nat.mul_lt_mul_of_pos_right hlt hdown
    _ = width * 10 ^ (-power).toNat * 10 ^ (16 + (-(power + 16)).toNat) := by
        rw [Nat.pow_add]
        ring

/-- The decimal of a double is taken for that double. -/
theorem holds_shortest (hpositive : 0 < mantissa) (hbits : mantissa < 2 ^ 53)
    (hexponent : -1074 ≤ exponent) :
    (Neighbourhood.ofDyadic mantissa exponent).holds (shortest mantissa exponent) = true := by
  have hfine := Neighbourhood.fine_ofDyadic hpositive hbits hexponent
  generalize haround : Neighbourhood.ofDyadic mantissa exponent = around at *
  have htop := le_of_magnitude hfine.den_pos hfine.den_le
  rw [shortest, haround]
  generalize magnitude around.value around.den = top at *
  have hlast : (around.onGrid? 17 (top - 17)).isSome = true := by
    refine around.isSome_onGrid? hfine 17 (mul_pow_lt_of_pow_le ?_ hfine.lt_width)
    have hfirst : top - 17 + 16 = top - 1 := by omega
    have hsecond : -(top - 17 + 16) = 1 - top := by omega
    rwa [hsecond, hfirst]
  cases hfound : (List.range' 1 17).findSome? fun count => around.onGrid? count (top - count) with
  | none =>
    have hnone : around.onGrid? 17 (top - 17) = none :=
      List.findSome?_eq_none_iff.1 hfound 17 (by decide)
    rw [hnone] at hlast
    cases hlast
  | some number =>
    obtain ⟨count, hcount, hgrid⟩ := List.exists_of_findSome?_eq_some hfound
    exact around.holds_of_onGrid? (List.mem_range'_1.1 hcount).1 hgrid

/-- The decimal of a positive number has digits. -/
theorem digits_shortest_pos (hpositive : 0 < mantissa) (hbits : mantissa < 2 ^ 53)
    (hexponent : -1074 ≤ exponent) : 0 < (shortest mantissa exponent).digits :=
  Neighbourhood.digits_pos_of_holds _
    (Neighbourhood.fine_ofDyadic hpositive hbits hexponent).low_pos
    (holds_shortest hpositive hbits hexponent)

end Doubles

end Upkeep.Decimal
