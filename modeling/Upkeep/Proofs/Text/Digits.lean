/-
# The digits of a number

A number is written by its digits from the first to the last, to whatever base. The last digit is
the easy one to split off, so what is said of all digits goes by induction on the number without it;
of the first digit one only knows that it is not zero unless the number is.
-/

import Mathlib.Tactic.IntervalCases
import Upkeep.Text.Hex

namespace Upkeep.Text.Hex

variable {base : Nat}

/-- A digit has the value that it was written for. -/
theorem value?_digitChar {d : Nat} (hd : d < 16) : value? (Nat.digitChar d).toNat = some d := by
  interval_cases d <;> rfl

/-- The digits of a number are those below its base. -/
theorem exists_of_mem_toDigits {n : Nat} (hbase : 1 < base) {c : Char}
    (hc : c ∈ Nat.toDigits base n) : ∃ digit < base, c = Nat.digitChar digit := by
  induction n using Nat.strongRecOn with
  | ind n ih =>
      by_cases hsmall : n < base
      · rw [Nat.toDigits_of_lt_base hsmall, List.mem_singleton] at hc
        exact ⟨n, hsmall, hc⟩
      · have hlarge : base ≤ n := Nat.le_of_not_lt hsmall
        rw [Nat.toDigits_of_base_le hbase hlarge, List.mem_append, List.mem_singleton] at hc
        rcases hc with hfront | hlast
        · exact ih (n / base) (Nat.div_lt_self (by omega) hbase) hfront
        · exact ⟨n % base, Nat.mod_lt n (by omega), hlast⟩

/-- To any base up to sixteen they are hexadecimal digits. -/
theorem exists_hex_of_mem_toDigits {n : Nat} (hbase : 1 < base) (hhex : base ≤ 16) {c : Char}
    (hc : c ∈ Nat.toDigits base n) : ∃ digit < 16, c = Nat.digitChar digit := by
  obtain ⟨digit, hlt, hdigit⟩ := exists_of_mem_toDigits hbase hc
  exact ⟨digit, hlt.trans_le hhex, hdigit⟩

/-- There is a first digit, and it is not zero unless the number is. -/
theorem exists_toDigits_eq_cons (hbase : 1 < base) (n : Nat) :
    ∃ d chars, d < base ∧ (0 < n → 0 < d) ∧ Nat.toDigits base n = Nat.digitChar d :: chars := by
  induction n using Nat.strongRecOn with
  | ind n ih =>
      rcases Nat.lt_or_ge n base with hsmall | hlarge
      · exact ⟨n, [], hsmall, id, Nat.toDigits_of_lt_base hsmall⟩
      · have hpos : 0 < n := by omega
        obtain ⟨d, chars, hlt, hfirst, hdigits⟩ := ih (n / base) (Nat.div_lt_self hpos hbase)
        have hfront : 0 < n / base := Nat.div_pos hlarge (by omega)
        refine ⟨d, chars ++ [Nat.digitChar (n % base)], hlt, fun _ => hfirst hfront, ?_⟩
        rw [Nat.toDigits_of_base_le hbase hlarge, hdigits, List.cons_append]

/-- Only the digits of zero start with a zero. -/
theorem eq_zero_of_head?_toDigits (hbase : 1 < base) (hhex : base ≤ 16) {n : Nat}
    (hzero : (Nat.toDigits base n).head? = some '0') : n = 0 := by
  obtain ⟨d, chars, hlt, hfirst, hdigits⟩ := exists_toDigits_eq_cons hbase n
  rw [hdigits, List.head?_cons, Option.some.injEq] at hzero
  have hvalue : value? '0'.toNat = some d := hzero ▸ value?_digitChar (hlt.trans_le hhex)
  have hd : 0 = d := Option.some.inj hvalue
  omega

end Upkeep.Text.Hex
