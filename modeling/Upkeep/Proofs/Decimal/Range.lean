/-
# Arithmetic that stays finite

How large the result of an operation on doubles can be is told here by two numbers only: a bound
on the bits of a mantissa and a bound on the exponent. The bounds are generous, for they have to
show no more than that nothing is anywhere near infinity. Rounding can raise them, but not by
more than the bits that it was given, and packing a double keeps its exponent.
-/

import Upkeep.Proofs.Decimal.Dyadic

namespace Upkeep.Decimal.Dyadic

open Float.Model (UnpackedFloat Format totalExponent)
open Float.Model.UnpackedFloat

/-- Zero or positive, with a mantissa of so many bits and an exponent up to a bound. -/
inductive Within (bits top : Nat) : UnpackedFloat → Prop
  | zero : Within bits top (.zero .positive)
  | finite {mantissa : Nat} {exponent : Int} {hpositive : 0 < mantissa}
      (hmantissa : mantissa < 2 ^ bits) (hexponent : exponent ≤ top) :
      Within bits top (.finite .positive mantissa exponent hpositive)

theorem Within.mono {bits top top' : Nat} {x : UnpackedFloat} (hx : Within bits top x)
    (htop : top ≤ top') : Within bits top' x := by
  cases hx with
  | zero => exact .zero
  | finite hmantissa hexponent => exact .finite hmantissa (hexponent.trans (by omega))

section Rounding

variable {bits top mantissa : Nat} {exponent : Int}

theorem log2_le_of_lt (hmantissa : mantissa < 2 ^ bits) : mantissa.log2 ≤ bits := by
  by_cases hzero : mantissa = 0
  · rw [hzero]
    exact Nat.zero_le _
  · exact ((Nat.log2_lt hzero).2 hmantissa).le

theorem mantissa_shiftRight (extended : ExtendedMantissa) (n : Nat) :
    (extended >>> n).mantissa ≤ extended.mantissa := by
  induction n with
  | zero => exact le_rfl
  | succ n ih => exact (Nat.div_le_self _ 2).trans ih

theorem mantissa_ofMantissaAndAccuracy (mantissa : Nat) (accuracy : Accuracy) :
    (ExtendedMantissa.ofMantissaAndAccuracy mantissa accuracy).mantissa = mantissa := by
  rcases accuracy with _ | (_ | _ | _) <;> rfl

theorem roundedMantissa_le (extended : ExtendedMantissa) :
    extended.roundedMantissa ≤ extended.mantissa + 1 := by
  obtain ⟨mantissa, round, sticky⟩ := extended
  cases round <;> cases sticky <;>
    simp only [ExtendedMantissa.roundedMantissa, ExtendedMantissa.accuracy,
      Accuracy.roundToNearestEven] <;> omega

/-- The exponent at which a mantissa is kept is as large as the bits of the mantissa make it. -/
theorem shiftToTargetExponent_le (hmantissa : mantissa < 2 ^ bits) (hexponent : exponent ≤ top)
    (accuracy : Accuracy) :
    (shiftToTargetExponent .binary64 mantissa exponent accuracy).1.mantissa ≤ mantissa ∧
      (shiftToTargetExponent .binary64 mantissa exponent accuracy).2 ≤ (top + bits : Nat) := by
  have hlog := log2_le_of_lt hmantissa
  constructor
  · refine (mantissa_shiftRight _ _).trans ?_
    rw [mantissa_ofMantissaAndAccuracy]
  · simp only [shiftToTargetExponent, shiftToExponent, Format.targetExponent, totalExponent,
      Format.mantissaBits, Format.minExponent]
    norm_num
    omega

/-- Rounding shifts twice, so it adds the bits of the mantissa to the exponent at most twice. -/
theorem within_roundWithAccuracy (hmantissa : mantissa < 2 ^ bits) (hexponent : exponent ≤ top)
    (accuracy : Accuracy) :
    Within (bits + 1) (top + 2 * bits + 1)
      (roundWithAccuracy .binary64 .positive mantissa exponent accuracy) := by
  have hfirst := shiftToTargetExponent_le hmantissa hexponent accuracy
  rw [roundWithAccuracy]
  generalize shiftToTargetExponent .binary64 mantissa exponent accuracy = first at hfirst ⊢
  obtain ⟨extended, middle⟩ := first
  dsimp only at hfirst ⊢
  have hrounded : extended.roundedMantissa < 2 ^ (bits + 1) := by
    have := roundedMantissa_le extended
    rw [Nat.pow_succ]
    omega
  have hsecond := shiftToTargetExponent_le hrounded hfirst.2 .exact
  split
  · exact .zero
  · exact .finite (hsecond.1.trans_lt hrounded) (hsecond.2.trans (by omega))

end Rounding

section Operations

variable {bits top bits' top' : Nat} {x y : UnpackedFloat}

/-- A double has the exponent of its fields. -/
theorem within_unpack_packComponents {field : BitVec 11} {fraction : BitVec 52}
    (hfield : field.toNat < 2047) (htop : field.toNat ≤ 1075 + top) :
    Within 53 top (.unpack .binary64 (packComponents .binary64 .positive field fraction)) := by
  have hones : field ≠ -1#11 := by
    rintro rfl
    exact absurd hfield (by decide)
  have hfraction := fraction.isLt
  have hbias : (Format.exponentBias .binary64 : Int) = 1023 := rfl
  rw [UnpackedFloat.unpack]
  simp only [unpackExponent_packComponents, unpackMantissa_packComponents,
    unpackSign_packComponents, Sign.ofBitVec_toBitVec, hbias]
  rw [if_neg hones]
  split
  next hzero =>
    split
    · exact .zero
    · refine .finite (by omega) ?_
      rw [hzero]
      norm_num
  · refine .finite ?_ ?_
    · rw [toNat_hidden_append]
      omega
    · omega

/-- A result that is not too large is packed as it is. -/
theorem within_unpack_pack (hx : Within bits top x) (htop : top ≤ 970) :
    Within 53 top (Float.Model.pack x).unpack := by
  cases hx with
  | zero =>
    exact within_unpack_packComponents (by decide) (Nat.zero_le _)
  | @finite mantissa exponent _ _ hexponent =>
    rw [Float.Model.unpack, Float.Model.pack]
    have hbias : (Format.exponentBias .binary64 : Int) = 1023 := rfl
    have hfits : ¬2 ^ 11 ≤ (exponent + 1023 + 52).toNat + 1 := by omega
    have hfield : (BitVec.ofNat 11 (exponent + 1023 + 52).toNat).toNat =
        (exponent + 1023 + 52).toNat := by
      rw [BitVec.toNat_ofNat]
      exact Nat.mod_eq_of_lt (by omega)
    simp only [UnpackedFloat.pack, hbias, Nat.cast_ofNat]
    rw [if_neg hfits]
    split
    · exact within_unpack_packComponents (by rw [hfield]; omega) (by rw [hfield]; omega)
    · exact within_unpack_packComponents (by decide) (Nat.zero_le _)

theorem within_mul (hx : Within bits top x) (hy : Within bits' top' y) :
    Within (bits + bits' + 1) (top + top' + 2 * (bits + bits') + 1) (mul .binary64 x y) := by
  cases hx with
  | zero => cases hy <;> exact .zero
  | @finite mantissa exponent _ hmantissa hexponent =>
    cases hy with
    | zero => exact .zero
    | @finite mantissa' exponent' _ hmantissa' hexponent' =>
      have hproduct : mantissa * mantissa' < 2 ^ (bits + bits') := by
        rw [Nat.pow_add]
        exact Nat.mul_lt_mul'' hmantissa hmantissa'
      have hsum : exponent + exponent' ≤ (top + top' : Nat) := by omega
      exact within_roundWithAccuracy hproduct hsum .exact

/-- Division makes the dividend longer by what the divisor takes away. -/
theorem within_div (hx : Within bits top x) {divisor : Nat} {exponent : Int}
    (hdivisor : 0 < divisor) (hbits : divisor < 2 ^ bits') (hexponent : -top' ≤ exponent) :
    Within (bits + bits' + 54) (top + top' + 2 * (bits + bits' + 53) + 1)
      (div .binary64 x (.finite .positive divisor exponent hdivisor)) := by
  cases hx with
  | zero => exact .zero
  | @finite mantissa exponent' _ hmantissa htop =>
    have hlog := log2_le_of_lt hbits
    have hshift : ∀ n ≤ bits' + 53, mantissa <<< n / divisor < 2 ^ (bits + bits' + 53) := by
      intro n hn
      have hlong : mantissa <<< n < 2 ^ (bits + n) := by
        rw [Nat.shiftLeft_eq, Nat.pow_add]
        exact Nat.mul_lt_mul_of_pos_right hmantissa (Nat.two_pow_pos n)
      refine (Nat.div_le_self _ _).trans_lt (hlong.trans_le ?_)
      exact Nat.pow_le_pow_right (by decide) (by omega)
    simp only [UnpackedFloat.div, divCore, Format.targetExponent, totalExponent,
      Format.mantissaBits, Format.minExponent]
    refine within_roundWithAccuracy (hshift _ ?_) ?_ _
    · norm_num
      omega
    · norm_num
      omega

end Operations

/-! ## Counts -/

section Counts

variable {n : Nat}

theorem unpack_one : Float.exactlyRepresentablePowersOfTen[0].toModel.unpack =
    .finite .positive 4503599627370496 (-52) (by decide) :=
  rfl

theorem unpack_thousand : (1000.0 : Float).toModel.unpack =
    .finite .positive 8796093022208000 (-43) (by decide) :=
  rfl

/-- A count is shifted until it fills a mantissa. -/
theorem within_unpackedOfNat (hn : n < 2 ^ 53) :
    Within 107 213 (UnpackedFloat.ofNat .binary64 n) := by
  rcases Nat.eq_zero_or_pos n with rfl | hpositive
  · exact .zero
  · have hlog := log2_le_of_lt hn
    have hcompare : compare (n : Int) 0 = .gt := Int.compare_eq_gt.2 (by omega)
    have hshift : ∀ k ≤ 53, n <<< k < 2 ^ 106 := by
      intro k hk
      rw [Nat.shiftLeft_eq]
      exact (Nat.mul_lt_mul_of_pos_right hn (Nat.two_pow_pos k)).trans_le
        ((Nat.mul_le_mul_left _ (Nat.pow_le_pow_right (by decide) hk)).trans (by decide))
    simp only [UnpackedFloat.ofNat, ofInt, UnpackedFloat.normalize, hcompare, UnpackedFloat.round,
      decreaseExponent, Format.targetExponent, totalExponent, Format.mantissaBits,
      Format.minExponent, Int.toNat_natCast]
    have hround (k : Nat) (hk : k ≤ 53) (exponent : Int) (hexponent : exponent ≤ (0 : Nat)) :
        Within 107 213 (roundWithAccuracy .binary64 .positive (n <<< k) exponent .exact) :=
      within_roundWithAccuracy (hshift k hk) hexponent .exact
    refine hround _ ?_ _ ?_
    · norm_num
      omega
    · norm_num

theorem within_ofNat (hn : n < 2 ^ 64) : Within 53 426 (Float.ofNat n).toModel.unpack := by
  show Within 53 426 (Float.ofScientific n false 0).toModel.unpack
  rw [Float.ofScientific]
  split
  next hsmall =>
    have hsame : n.toUInt64.toNat = n := Nat.mod_eq_of_lt hn
    have hcount : Within 53 213 n.toUInt64.toFloat.toModel.unpack := by
      show Within 53 213 (Float.Model.pack (UnpackedFloat.ofNat .binary64 n.toUInt64.toNat)).unpack
      rw [hsame]
      exact within_unpack_pack (within_unpackedOfNat hsmall.1) (by decide)
    have hone : Within 53 0 Float.exactlyRepresentablePowersOfTen[0].toModel.unpack := by
      rw [unpack_one]
      exact .finite (by decide) (by decide)
    exact within_unpack_pack (within_mul hcount hone) (by decide)
  next hlarge =>
    have hzero : n ≠ 0 := by
      rintro rfl
      exact hlarge ⟨by decide, by decide⟩
    have hpositive : 0 < n <<< 53 := Nat.shiftLeft_pos_iff.2 (Nat.pos_of_ne_zero hzero)
    have hcount : Within 117 0 (.finite .positive (n <<< 53) (-53) hpositive) := by
      refine .finite ?_ (by decide)
      rw [Nat.shiftLeft_eq]
      omega
    have hone : Within 1 0 (.finite .positive (10 ^ 0) 0 Nat.one_pos) :=
      .finite (by decide) (by decide)
    have hmul := within_mul hcount hone
    have hlow : ¬(0 : Int) < -(2 ^ Format.exponentBits .binary64 + (n.log2 : Int)) := by
      have hbits : (2 : Int) ^ Format.exponentBits .binary64 = 2048 := rfl
      omega
    show Within 53 426 (Float.Model.pack (UnpackedFloat.ofScientific .binary64 n 0)).unpack
    rw [UnpackedFloat.ofScientific, dif_neg hzero, if_neg (by decide), if_neg hlow,
      if_pos (by decide)]
    exact (within_unpack_pack hmul (by decide)).mono (by decide)

/-- A count of thousandths is a finite number. -/
theorem exists_ofFloat_thousandths (hn : n < 2 ^ 64) :
    ∃ mantissa exponent, ofFloat (Float.ofNat n / 1000.0) = .finite false mantissa exponent := by
  have hcount := within_ofNat hn
  have hdiv : Within 53 960 (Float.ofNat n / 1000.0).toModel.unpack := by
    show Within 53 960 (Float.Model.pack
      (div .binary64 (Float.ofNat n).toModel.unpack (1000.0 : Float).toModel.unpack)).unpack
    rw [unpack_thousand]
    have hbits : 8796093022208000 < 2 ^ 53 := by decide
    have hlow : -((43 : Nat) : Int) ≤ -43 := by decide
    have hquotient := within_div hcount (by decide) hbits hlow
    exact (within_unpack_pack hquotient (by decide)).mono (by decide)
  rw [ofFloat_eq]
  generalize (Float.ofNat n / 1000.0).toModel.unpack = quotient at hdiv
  cases hdiv with
  | zero => exact ⟨_, _, rfl⟩
  | finite => exact ⟨_, _, rfl⟩

end Counts

end Upkeep.Decimal.Dyadic
