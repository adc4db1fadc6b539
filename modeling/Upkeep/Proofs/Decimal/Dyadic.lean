/-
# The parts of a double

The arithmetic of doubles is that of a sign with a mantissa and an exponent, while their decimal
text goes by the bits. Both take a double apart in the same way; so what the arithmetic knows of
a double, that it is finite, or positive, or not too large, is known of the parts that are
written.
-/

import Mathlib
import Upkeep.Decimal.Dyadic

namespace Upkeep.Decimal.Dyadic

open Float.Model (UnpackedFloat)
open Float.Model.UnpackedFloat (Sign unpackSign unpackExponent unpackMantissa)

/-- Whether a sign is a minus. -/
def isMinus : Sign → Bool
  | .negative => true
  | .positive => false

/-- The parts of a double as its arithmetic sees them. A zero has the least exponent. -/
def ofUnpacked : UnpackedFloat → Dyadic
  | .notANumber => .nan
  | .infinity sign => .infinite (isMinus sign)
  | .zero sign => .finite (isMinus sign) 0 (-1074)
  | .finite sign mantissa exponent _ => .finite (isMinus sign) mantissa exponent

section Fields

variable (bits : UInt64)

theorem toNat_unpackSign :
    (@unpackSign .binary64 bits.toBitVec).toNat = bits.toNat / 2 ^ 63 := by
  have := bits.toBitVec.isLt
  simp only [unpackSign, BitVec.toNat_cast, BitVec.extractLsb_toNat, Nat.shiftRight_eq_div_pow,
    UInt64.toNat_toBitVec] at this ⊢
  norm_num at this ⊢
  omega

theorem toNat_unpackExponent :
    (@unpackExponent .binary64 bits.toBitVec).toNat =
      bits.toNat / 2 ^ 52 % 2 ^ 11 := by
  simp only [unpackExponent, BitVec.toNat_cast, BitVec.extractLsb_toNat,
    Nat.shiftRight_eq_div_pow, UInt64.toNat_toBitVec]

theorem toNat_unpackMantissa :
    (@unpackMantissa .binary64 bits.toBitVec).toNat = bits.toNat % 2 ^ 52 := by
  simp only [unpackMantissa, BitVec.toNat_cast, BitVec.extractLsb_toNat,
    Nat.shiftRight_eq_div_pow, UInt64.toNat_toBitVec]
  norm_num

/-- The hidden bit stands in front of the 52 that are kept. -/
theorem toNat_hidden_append (fraction : BitVec 52) :
    (1#1 ++ fraction).toNat = 2 ^ 52 + fraction.toNat := by
  rw [BitVec.toNat_append, ← Nat.shiftLeft_add_eq_or_of_lt fraction.isLt]
  rfl

theorem isMinus_ofBitVec (sign : BitVec 1) :
    isMinus (Sign.ofBitVec sign) = (sign.toNat == 1) := by
  revert sign
  decide

/-- The bits of a double and its arithmetic tell the same parts. -/
theorem ofBits_eq : ofBits bits = ofUnpacked (.unpack .binary64 bits.toBitVec) := by
  have hsign := isMinus_ofBitVec (@unpackSign .binary64 bits.toBitVec)
  rw [toNat_unpackSign] at hsign
  have hexponent := toNat_unpackExponent bits
  have hmantissa := toNat_unpackMantissa bits
  have hones : @unpackExponent .binary64 bits.toBitVec = -1#11 ↔
      bits.toNat / 2 ^ 52 % 2 ^ 11 = 2047 := by
    rw [← hexponent, ← BitVec.toNat_inj]
    rfl
  have hzeros : @unpackExponent .binary64 bits.toBitVec = 0#11 ↔
      bits.toNat / 2 ^ 52 % 2 ^ 11 = 0 := by
    rw [← hexponent, ← BitVec.toNat_inj]
    rfl
  have hblank : @unpackMantissa .binary64 bits.toBitVec = 0#52 ↔
      bits.toNat % 2 ^ 52 = 0 := by
    rw [← hmantissa, ← BitVec.toNat_inj]
    rfl
  have hpow (n : Nat) : Nat.pow 2 n = 2 ^ n := rfl
  rw [ofBits, UnpackedFloat.unpack]
  simp only [hpow]
  by_cases hspecial : bits.toNat / 2 ^ 52 % 2 ^ 11 = 2047
  · rw [if_pos hspecial, if_pos (hones.2 hspecial)]
    by_cases hfraction : bits.toNat % 2 ^ 52 = 0
    · rw [if_pos hfraction, if_pos (hblank.2 hfraction), ofUnpacked, hsign]
    · rw [if_neg hfraction, if_neg (mt hblank.1 hfraction), ofUnpacked]
  · rw [if_neg hspecial, if_neg (mt hones.1 hspecial)]
    by_cases hsmall : bits.toNat / 2 ^ 52 % 2 ^ 11 = 0
    · rw [if_pos hsmall, if_pos (hzeros.2 hsmall)]
      by_cases hfraction : bits.toNat % 2 ^ 52 = 0
      · rw [dif_pos (hblank.2 hfraction), ofUnpacked, hfraction, hsign]
      · rw [dif_neg (mt hblank.1 hfraction), ofUnpacked, hsign, hmantissa, hexponent, hsmall]
        rfl
    · rw [if_neg hsmall, if_neg (mt hzeros.1 hsmall), ofUnpacked, hsign, toNat_hidden_append,
        hmantissa, hexponent]
      rfl

end Fields

/-- The parts by which a double is written are those with which its arithmetic goes on. -/
theorem ofFloat_eq (x : Float) : ofFloat x = ofUnpacked x.toModel.unpack :=
  ofBits_eq x.toBits

/-- A mantissa has at most 53 bits, and no power of two is below the least. -/
theorem bounds_of_ofFloat {x : Float} {negative : Bool} {mantissa : Nat} {exponent : Int}
    (hparts : ofFloat x = .finite negative mantissa exponent) :
    mantissa < 2 ^ 53 ∧ -1074 ≤ exponent := by
  have hpow (n : Nat) : Nat.pow 2 n = 2 ^ n := rfl
  simp only [ofFloat, ofBits, hpow] at hparts
  have hfraction : x.toBits.toNat % 2 ^ 52 < 2 ^ 52 := Nat.mod_lt _ (by decide)
  split at hparts
  · split at hparts <;> cases hparts
  next =>
    split at hparts
    · cases hparts
      exact ⟨by omega, by decide⟩
    · cases hparts
      refine ⟨by omega, ?_⟩
      rw [Int.ofNat_eq_natCast]
      omega

/-! ## Positive numbers -/

theorem unpack_zero : (0.0 : Float).toModel.unpack = .zero .positive :=
  rfl

/-- What is greater than zero is infinite or has a positive mantissa. -/
theorem zero_lt_iff (x : UnpackedFloat) :
    UnpackedFloat.lt (.zero .positive) x = true ↔
      x = .infinity .positive ∨
        ∃ mantissa exponent h, x = .finite .positive mantissa exponent h := by
  rcases x with (_ | _) | _ | (_ | _) | ⟨_ | _, mantissa, exponent, hpositive⟩
  all_goals simp [UnpackedFloat.lt, UnpackedFloat.compare]
  exact hpositive

/-- A double is finite and positive when its parts are. -/
theorem isFinite_and_pos_iff (x : Float) :
    (x.isFinite = true ∧ 0.0 < x) ↔
      ∃ mantissa exponent, 0 < mantissa ∧ ofFloat x = .finite false mantissa exponent := by
  have hlt : 0.0 < x ↔ UnpackedFloat.lt (.zero .positive) x.toModel.unpack = true := by
    rw [← unpack_zero]
    exact decide_eq_true_iff
  have hfinite : x.isFinite = x.toModel.unpack.isFinite := rfl
  rw [hlt, hfinite, zero_lt_iff, ofFloat_eq]
  rcases x.toModel.unpack with (_ | _) | _ | (_ | _) | ⟨_ | _, _, _, _⟩ <;>
    simp [UnpackedFloat.isFinite, ofUnpacked, isMinus]

end Upkeep.Decimal.Dyadic
