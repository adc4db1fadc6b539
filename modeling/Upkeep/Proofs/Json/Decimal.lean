/-
# Decimal texts are numbers

Whatever double is written, in whichever layout, its text is a number of the grammar as long as
the double is finite. A text is taken apart into a whole part, a fraction and an exponent; that
the whole part has no leading zero is owed to the digits, which stand for a positive number and so
begin with no zero.
-/

import Upkeep.Decimal.Layout
import Upkeep.Proofs.Decimal.Dyadic
import Upkeep.Proofs.Decimal.Shortest
import Upkeep.Proofs.Json.Grammar

namespace Upkeep.Json

open Decimal (Dyadic Layout Scaled)

/-! ## Digits as characters -/

/-- Nothing but the characters of decimal digits. -/
def IsDecimal (chars : List Char) : Prop :=
  ∀ c ∈ chars, ∃ d < 10, c = Nat.digitChar d

section Digits

variable {chars : List Char}

theorem isDecimal_toDigits (n : Nat) : IsDecimal (Nat.toDigits 10 n) :=
  fun _ hc => Text.Hex.exists_of_mem_toDigits (by decide) hc

theorem isDecimal_replicate_zero (k : Nat) : IsDecimal (List.replicate k '0') := by
  intro c hc
  exact ⟨0, by decide, List.eq_of_mem_replicate hc⟩

theorem IsDecimal.append {others : List Char} (hchars : IsDecimal chars)
    (hothers : IsDecimal others) : IsDecimal (chars ++ others) :=
  List.forall_mem_append.2 ⟨hchars, hothers⟩

theorem isDigits_bytesOf (hchars : IsDecimal chars) : IsDigits (bytesOf chars) := by
  induction chars with
  | nil => exact List.forall_mem_nil _
  | cons c chars ih =>
      obtain ⟨⟨d, hten, rfl⟩, hrest⟩ := List.forall_mem_cons.1 hchars
      rw [bytesOf_cons_of_lt (toNat_digitChar_lt hten)]
      exact List.forall_mem_cons.2 ⟨isDigit_digitChar hten, ih hrest⟩

theorem isWhole_bytesOf {d : Nat} (hten : d < 10) (hpositive : 0 < d) (hchars : IsDecimal chars) :
    IsWhole (bytesOf (Nat.digitChar d :: chars)) := by
  have hnonzero : ascii (Nat.digitChar d) ≠ ascii '0' := by interval_cases d <;> decide
  rw [bytesOf_cons_of_lt (toNat_digitChar_lt hten)]
  exact .digits (isDigit_digitChar hten) hnonzero (isDigits_bytesOf hchars)

theorem isFraction_bytesOf (hchars : IsDecimal chars) (hsome : chars ≠ []) :
    IsFraction (bytesOf ('.' :: chars)) := by
  obtain ⟨c, rest, rfl⟩ := List.exists_cons_of_ne_nil hsome
  obtain ⟨⟨d, hten, rfl⟩, hrest⟩ := List.forall_mem_cons.1 hchars
  rw [bytesOf_cons_of_lt (by decide), bytesOf_cons_of_lt (toNat_digitChar_lt hten)]
  exact .point (isDigit_digitChar hten) (isDigits_bytesOf hrest)

theorem isExponent_bytesOf {sign : List Char} (hsign : sign ∈ [[], ['+'], ['-']]) (n : Nat) :
    IsExponent (bytesOf ('e' :: (sign ++ Nat.toDigits 10 n))) := by
  obtain ⟨d, chars, hten, -, hdigits⟩ :=
    Text.Hex.exists_toDigits_eq_cons (by decide : 1 < 10) n
  have hchars : IsDecimal chars := by
    have hall := isDecimal_toDigits n
    rw [hdigits] at hall
    exact (List.forall_mem_cons.1 hall).2
  have hbytes : bytesOf sign ∈ [[], [ascii '+'], [ascii '-']] := by
    simp only [List.mem_cons, List.not_mem_nil, or_false] at hsign
    rcases hsign with rfl | rfl | rfl <;> decide
  rw [bytesOf_cons_of_lt (by decide), bytesOf_append, hdigits,
    bytesOf_cons_of_lt (toNat_digitChar_lt hten)]
  exact .power (.inl rfl) hbytes (isDigit_digitChar hten) (isDigits_bytesOf hchars)

end Digits

/-! ## Layouts -/

/-- The text of a number without its sign. -/
inductive IsUnsigned : String → Prop
  | of {text : String} (whole fraction exponent : List Char)
      (htext : text.toList = whole ++ (fraction ++ exponent)) (hwhole : IsWhole (bytesOf whole))
      (hfraction : IsFraction (bytesOf fraction)) (hexponent : IsExponent (bytesOf exponent)) :
      IsUnsigned text

/-- With a sign or without, it is a number. -/
theorem IsUnsigned.isNumber {text : String} (hunsigned : IsUnsigned text) (negative : Bool) :
    IsNumber (Text.Utf8.encode (if negative then "-" ++ text else text)) := by
  obtain ⟨whole, fraction, exponent, htext, hwhole, hfraction, hexponent⟩ := hunsigned
  have hparts (sign : List UInt8) (hsign : sign ∈ [[], [ascii '-']]) :
      IsNumber (sign ++ bytesOf text.toList) := by
    rw [htext, bytesOf_append, bytesOf_append]
    exact .of hsign hwhole hfraction hexponent
  rw [encode_eq_bytesOf]
  cases negative with
  | false => exact hparts [] (by decide)
  | true =>
      have hminus : ("-" ++ text).toList = '-' :: text.toList := by simp
      rw [if_pos rfl, hminus, bytesOf_cons_of_lt (by decide)]
      exact hparts [ascii '-'] (by decide)

section Layouts

variable {layout : Layout} {d : Nat} {chars : List Char}

/-- Without an exponent, the point stands behind, among or in front of the digits. -/
theorem isUnsigned_positional (hten : d < 10) (hpositive : 0 < d) (hchars : IsDecimal chars)
    (power : Int) : IsUnsigned (layout.positional (Nat.digitChar d :: chars) power) := by
  have hdigits : IsDecimal (Nat.digitChar d :: chars) :=
    List.forall_mem_cons.2 ⟨⟨d, hten, rfl⟩, hchars⟩
  cases power with
  | ofNat k =>
    rw [Layout.positional]
    have hwhole := isWhole_bytesOf hten hpositive (hchars.append (isDecimal_replicate_zero k))
    cases layout.keepsFraction with
    | false =>
        exact .of _ [] [] (by simp) hwhole .none .none
    | true =>
        refine .of _ ['.', '0'] [] (by simp) hwhole ?_ .none
        exact isFraction_bytesOf (isDecimal_replicate_zero 1) (by decide)
  | negSucc k =>
    rw [Layout.positional]
    split
    next hamong =>
      rw [List.length_cons] at hamong ⊢
      obtain ⟨j, hj⟩ : ∃ j, chars.length + 1 - (k + 1) = j + 1 := ⟨chars.length - k - 1, by omega⟩
      have hbehind : chars.drop j ≠ [] := List.drop_eq_nil_iff.not.2 (by omega)
      rw [hj, List.take_succ_cons, List.drop_succ_cons]
      refine .of (Nat.digitChar d :: chars.take j) ('.' :: chars.drop j) [] (by simp) ?_ ?_ .none
      · exact isWhole_bytesOf hten hpositive fun c hc => hchars c (List.mem_of_mem_take hc)
      · exact isFraction_bytesOf (fun c hc => hchars c (List.mem_of_mem_drop hc)) hbehind
    next =>
      refine .of ['0'] ('.' :: (List.replicate (k - chars.length) '0' ++ Nat.digitChar d :: chars))
        [] (by simp) .zero (isFraction_bytesOf ?_ ?_) .none
      · exact (isDecimal_replicate_zero _).append hdigits
      · simp

/-- The exponent is set out behind one digit and the others, if there are others. -/
theorem toList_scientific (hmark : layout.exponentMark ∈ ["e", "e+"]) (c : Char)
    (chars : List Char) (magnitude : Int) :
    ∃ sign n, sign ∈ [[], ['+'], ['-']] ∧
      (layout.scientific (c :: chars) magnitude).toList =
        [c] ++ ((if chars = [] then [] else '.' :: chars) ++
          'e' :: (sign ++ Nat.toDigits 10 n)) := by
  simp only [List.mem_cons, List.not_mem_nil, or_false] at hmark
  cases magnitude with
  | ofNat k =>
      rcases hmark with hmark | hmark
      · refine ⟨[], k, by decide, ?_⟩
        cases chars <;> simp [Layout.scientific, hmark]
      · refine ⟨['+'], k, by decide, ?_⟩
        cases chars <;> simp [Layout.scientific, hmark]
  | negSucc k =>
      refine ⟨['-'], k + 1, by decide, ?_⟩
      cases chars <;> simp [Layout.scientific]

/-- With an exponent, one digit stands in front of the point. -/
theorem isUnsigned_scientific (hmark : layout.exponentMark ∈ ["e", "e+"]) (hten : d < 10)
    (hpositive : 0 < d) (hchars : IsDecimal chars) (magnitude : Int) :
    IsUnsigned (layout.scientific (Nat.digitChar d :: chars) magnitude) := by
  obtain ⟨sign, n, hsign, htext⟩ := toList_scientific hmark (Nat.digitChar d) chars magnitude
  have hwhole : IsWhole (bytesOf [Nat.digitChar d]) :=
    isWhole_bytesOf hten hpositive (List.forall_mem_nil _)
  have hexponent := isExponent_bytesOf hsign n
  cases chars with
  | nil => exact .of _ [] _ htext hwhole .none hexponent
  | cons c chars =>
      exact .of _ _ _ htext hwhole (isFraction_bytesOf hchars (List.cons_ne_nil c chars)) hexponent

/-- The text of a positive decimal is a number. -/
theorem isUnsigned_magnitudeText (hmark : layout.exponentMark ∈ ["e", "e+"]) {number : Scaled}
    (hdigits : 0 < number.digits) : IsUnsigned (layout.magnitudeText number) := by
  obtain ⟨d, chars, hten, hfirst, htoDigits⟩ :=
    Text.Hex.exists_toDigits_eq_cons (by decide : 1 < 10) number.digits
  have hchars : IsDecimal chars := by
    have hall := isDecimal_toDigits number.digits
    rw [htoDigits] at hall
    exact (List.forall_mem_cons.1 hall).2
  rw [Layout.magnitudeText]
  rw [htoDigits]
  split
  · exact isUnsigned_positional hten (hfirst hdigits) hchars _
  · exact isUnsigned_scientific hmark hten (hfirst hdigits) hchars _

/-- The text of a finite double is a number. -/
theorem isNumber_text (hmark : layout.exponentMark ∈ ["e", "e+"]) {x : Float} {negative : Bool}
    {mantissa : Nat} {exponent : Int}
    (hparts : Dyadic.ofFloat x = .finite negative mantissa exponent) :
    IsNumber (Text.Utf8.encode (layout.text x)) := by
  have hbounds := Dyadic.bounds_of_ofFloat hparts
  rw [Layout.text, hparts]
  refine IsUnsigned.isNumber ?_ negative
  by_cases hzero : mantissa = 0
  · rw [if_pos hzero]
    cases layout.keepsFraction with
    | false => exact .of ['0'] [] [] rfl .zero .none .none
    | true =>
        refine .of ['0'] ['.', '0'] [] rfl .zero ?_ .none
        exact isFraction_bytesOf (isDecimal_replicate_zero 1) (by decide)
  · rw [if_neg hzero]
    exact isUnsigned_magnitudeText hmark
      (Decimal.digits_shortest_pos (Nat.pos_of_ne_zero hzero) hbounds.1 hbounds.2)

end Layouts

end Upkeep.Json
