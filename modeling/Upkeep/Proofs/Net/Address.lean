/-
# Addresses there and back

The text of an address is read as this address, whichever of the two versions it has and however it
is written: in full, with zero groups left out, or as one of version 4 within one of version 6.

Each reader takes what the writer of its part has written off the front of a longer text, as long as
what comes next does not go on with this part: no digit behind a number, and behind the groups of an
address nothing at all or a double colon. An address of version 6 is never taken for one of version
4, since it holds no point or else starts with a colon. That the zero groups which are left out are
put back where they were only takes that there was such a run at this place, not that it was the
first longest one.
-/

import Mathlib.Data.List.TakeWhile
import Upkeep.Net.Address
import Upkeep.Proofs.Text.Digits

namespace Upkeep.Net

open Text.Hex

/-! ## Numbers -/

section Numbers

variable {base : Nat} {rest : List Char}

theorem isDigitTo_digitChar {d : Nat} (hhex : base ≤ 16) (hd : d < base) :
    isDigitTo base (Nat.digitChar d) = true := by
  simp [isDigitTo, value?_digitChar (hd.trans_le hhex), hd]

theorem isDigitTo_of_mem_toDigits {n : Nat} (hbase : 1 < base) (hhex : base ≤ 16) {c : Char}
    (hc : c ∈ Nat.toDigits base n) : isDigitTo base c = true := by
  obtain ⟨d, hd, rfl⟩ := exists_of_mem_toDigits hbase hc
  exact isDigitTo_digitChar hhex hd

/-- Digits stand for the number that they are the digits of. -/
theorem numeralTo_toDigits (hbase : 1 < base) (hhex : base ≤ 16) (n : Nat) :
    numeralTo base (Nat.toDigits base n) = n := by
  induction n using Nat.strongRecOn with
  | ind n ih =>
      rcases Nat.lt_or_ge n base with hsmall | hlarge
      · simp [Nat.toDigits_of_lt_base hsmall, numeralTo, value?_digitChar (hsmall.trans_le hhex)]
      · have hlast : n % base < 16 := (Nat.mod_lt n (by omega)).trans_le hhex
        have hfront := ih (n / base) (Nat.div_lt_self (by omega) hbase)
        rw [numeralTo] at hfront
        rw [Nat.toDigits_of_base_le hbase hlarge, numeralTo, List.foldl_append, hfront]
        simp only [List.foldl_cons, List.foldl_nil, value?_digitChar hlast, Option.getD_some]
        exact Nat.div_add_mod' n base

/-- No number to this base goes on with these characters. -/
def EndsDigits (base : Nat) (rest : List Char) : Prop :=
  ∀ c ∈ rest.head?, isDigitTo base c = false

theorem EndsDigits.nil : EndsDigits base [] := by
  simp [EndsDigits]

theorem EndsDigits.cons {c : Char} (hc : isDigitTo base c = false) :
    EndsDigits base (c :: rest) := by
  simpa [EndsDigits] using hc

theorem readDigits_cons_of_not {c : Char} {width : Nat} (hc : isDigitTo base c = false) :
    readDigits base width (c :: rest) = none := by
  simp [readDigits, hc]

/-- The digits of a number are read off in front of whatever does not go on with it. -/
theorem readDigits_toDigits {width n : Nat} (hbase : 1 < base) (hhex : base ≤ 16)
    (hwidth : 0 < width) (hfits : n < base ^ width) (hends : EndsDigits base rest) :
    readDigits base width (Nat.toDigits base n ++ rest) = some (Nat.toDigits base n, rest) := by
  have hdigits : ∀ c ∈ Nat.toDigits base n, isDigitTo base c = true :=
    fun c => isDigitTo_of_mem_toDigits hbase hhex
  have htake : (Nat.toDigits base n ++ rest).takeWhile (isDigitTo base) = Nat.toDigits base n := by
    rw [List.takeWhile_append_of_pos hdigits]
    cases rest with
    | nil => simp
    | cons c rest => simp [hends c (by simp)]
  have hdrop : (Nat.toDigits base n ++ rest).dropWhile (isDigitTo base) = rest := by
    rw [List.dropWhile_append_of_pos hdigits]
    cases rest with
    | nil => rfl
    | cons c rest => simp [hends c (by simp)]
  have hlength : (Nat.toDigits base n).length ≤ width :=
    (Nat.length_toDigits_le_iff hbase hwidth).2 hfits
  simp only [readDigits, htake, hdrop]
  rw [if_neg (by simpa [Nat.toDigits_ne_nil] using hlength)]

/-- What is behind the digits that have been read stood there before. -/
theorem mem_of_readDigits {width : Nat} {chars digits : List Char}
    (hread : readDigits base width chars = some (digits, rest)) {c : Char} (hc : c ∈ rest) :
    c ∈ chars := by
  simp only [readDigits, Option.ite_none_left_eq_some, Option.some.injEq, Prod.mk.injEq] at hread
  rw [← hread.2.2] at hc
  exact (List.dropWhile_sublist _).mem hc

end Numbers

/-! ## Version 4 -/

section Version4

variable {rest : List Char}

theorem readOctet_toDigits (byte : UInt8) (hends : EndsDigits 10 rest) :
    readOctet (Nat.toDigits 10 byte.toNat ++ rest) = some (byte, rest) := by
  have hbyte : byte.toNat < 256 := byte.toNat_lt
  have hvalue : numeralTo 10 (Nat.toDigits 10 byte.toNat) = byte.toNat :=
    numeralTo_toDigits (by decide) (by decide) _
  have hfirst : ¬((Nat.toDigits 10 byte.toNat).head? = some '0' ∧
      1 < (Nat.toDigits 10 byte.toNat).length) := by
    rintro ⟨hzero, hlong⟩
    rw [eq_zero_of_head?_toDigits (by decide) (by decide) hzero] at hlong
    exact absurd hlong (by decide)
  have hread : readDigits 10 3 (Nat.toDigits 10 byte.toNat ++ rest) =
      some (Nat.toDigits 10 byte.toNat, rest) :=
    readDigits_toDigits (by decide) (by decide) (by decide) (by omega) hends
  simp only [readOctet, hread, hvalue]
  rw [if_neg (not_or.2 ⟨hfirst, by omega⟩), UInt8.ofNat_toNat]

/-- The text of an address of version 4 is read off as this address. -/
theorem readIpv4_write (address : Ipv4) (hends : EndsDigits 10 rest) :
    readIpv4 (address.write ++ rest) = some (address, rest) := by
  have hpoint : ∀ chars, EndsDigits 10 ('.' :: chars) := fun _ => .cons (by decide)
  simp [readIpv4, Ipv4.write, readOctet_toDigits, hpoint, readChar, hends]

/-- What does not start with a digit does not start with an address of version 4. -/
theorem readIpv4_cons_of_not {c : Char} (hc : isDigitTo 10 c = false) :
    readIpv4 (c :: rest) = none := by
  simp [readIpv4, readOctet, readDigits_cons_of_not hc]

/-- Without a point there is no address of version 4. -/
theorem readIpv4_eq_none {chars : List Char} (hpoint : '.' ∉ chars) : readIpv4 chars = none := by
  cases hoctet : readOctet chars with
  | none => simp [readIpv4, hoctet]
  | some read =>
      obtain ⟨byte, behind⟩ := read
      have hbehind : '.' ∉ behind := by
        intro hmem
        simp only [readOctet] at hoctet
        split at hoctet
        · cases hoctet
        next hread =>
          simp only [Option.ite_none_left_eq_some, Option.some.injEq, Prod.mk.injEq] at hoctet
          exact hpoint (mem_of_readDigits hread (hoctet.2.2 ▸ hmem))
      have hchar : readChar '.' behind = none := by
        cases behind with
        | nil => rfl
        | cons c behind =>
            have hne : c ≠ '.' := fun heq => hbehind (heq ▸ List.mem_cons_self)
            simp [readChar, hne]
      simp [readIpv4, hoctet, hchar]

end Version4

/-! ## Version 6 -/

section Version6

variable {rest : List Char}

theorem readGroup_toDigits (group : UInt16) (hends : EndsDigits 16 rest) :
    readGroup (Nat.toDigits 16 group.toNat ++ rest) = some (group, rest) := by
  have hgroup : group.toNat < 16 ^ 4 := group.toNat_lt
  have hread : readDigits 16 4 (Nat.toDigits 16 group.toNat ++ rest) =
      some (Nat.toDigits 16 group.toNat, rest) :=
    readDigits_toDigits (by decide) (by decide) (by decide) hgroup hends
  have hvalue : numeralTo 16 (Nat.toDigits 16 group.toNat) = group.toNat :=
    numeralTo_toDigits (by decide) (by decide) _
  simp [readGroup, hread, hvalue]

/-- Groups with a colon in front of each. -/
def colonGroups (groups : List UInt16) : List Char :=
  groups.flatMap fun group => ':' :: Nat.toDigits 16 group.toNat

theorem writeGroups_cons (group : UInt16) (groups : List UInt16) :
    writeGroups (group :: groups) = Nat.toDigits 16 group.toNat ++ colonGroups groups := by
  induction groups generalizing group with
  | nil => simp [writeGroups, colonGroups]
  | cons next groups ih => simp [writeGroups, ih, colonGroups]

/-- Behind the groups of an address there is nothing, or a double colon in place of more. -/
def EndsGroups (rest : List Char) : Prop :=
  rest = [] ∨ ∃ behind, rest = ':' :: ':' :: behind

theorem EndsGroups.endsDigits (hends : EndsGroups rest) : EndsDigits 16 rest := by
  rcases hends with rfl | ⟨behind, rfl⟩
  · exact .nil
  · exact .cons (by decide)

theorem EndsGroups.endsDigits_colonGroups (hends : EndsGroups rest) (groups : List UInt16) :
    EndsDigits 16 (colonGroups groups ++ rest) := by
  cases groups with
  | nil => exact hends.endsDigits
  | cons group groups => exact .cons (by decide)

theorem point_notMem_toDigits (n : Nat) : '.' ∉ Nat.toDigits 16 n := by
  intro hmem
  have : isDigitTo 16 '.' = true := isDigitTo_of_mem_toDigits (by decide) (by decide) hmem
  exact absurd this (by decide)

theorem point_notMem_colonGroups (groups : List UInt16) : '.' ∉ colonGroups groups := by
  simp [colonGroups, point_notMem_toDigits]

theorem point_notMem_writeGroups (groups : List UInt16) : '.' ∉ writeGroups groups := by
  cases groups with
  | nil => simp [writeGroups]
  | cons group groups =>
      simp [writeGroups_cons, point_notMem_toDigits, point_notMem_colonGroups]

/-- At a double colon no group is read. -/
theorem readGroup_colon : readGroup (':' :: rest) = none := by
  simp [readGroup, readDigits_cons_of_not (show isDigitTo 16 ':' = false by decide)]

theorem readIpv4_colon : readIpv4 (':' :: rest) = none :=
  readIpv4_cons_of_not (by decide)

/-- Where the groups of an address end, none is read, be it with a colon in front or without. -/
theorem readGroups_of_endsGroups (hends : EndsGroups rest) (room : Nat) (isFirst : Bool) :
    readGroups room isFirst rest = ([], false, rest) := by
  cases room with
  | zero => rfl
  | succ room =>
      rcases hends with rfl | ⟨behind, rfl⟩
      · cases isFirst <;> simp [readGroups, readChar, readIpv4, readOctet, readGroup, readDigits]
      · cases isFirst <;> simp [readGroups, readChar, readIpv4_colon, readGroup_colon]

/-- A group is read, and those behind it with a colon in front of each. -/
theorem readGroups_cons {chars behind : List Char} {room : Nat} {isFirst : Bool} {group : UInt16}
    (hcolon : (if isFirst then some chars else readChar ':' chars) =
      some (Nat.toDigits 16 group.toNat ++ behind))
    (hplain : room = 0 ∨ readIpv4 (Nat.toDigits 16 group.toNat ++ behind) = none)
    (hends : EndsDigits 16 behind) :
    readGroups (room + 1) isFirst chars =
      let read := readGroups room false behind
      (group :: read.1, read.2.1, read.2.2) := by
  have hnone : (if room = 0 then none else readIpv4 (Nat.toDigits 16 group.toNat ++ behind)) =
      none := by
    rcases hplain with hroom | hplain <;> simp [*]
  rw [readGroups, hcolon]
  simp only [hnone, readGroup_toDigits group hends]

/-- Groups are read off as far as there is room for them. -/
theorem readGroups_colonGroups (hends : EndsGroups rest) (hpoint : '.' ∉ rest)
    (groups : List UInt16) {room : Nat} (hroom : groups.length ≤ room) :
    readGroups room false (colonGroups groups ++ rest) = (groups, false, rest) := by
  induction groups generalizing room with
  | nil => exact readGroups_of_endsGroups hends room false
  | cons group groups ih =>
      obtain ⟨room, rfl⟩ : ∃ fewer, room = fewer + 1 :=
        Nat.exists_eq_add_one.2 (Nat.lt_of_lt_of_le (Nat.succ_pos _) hroom)
      have hplain : readIpv4 (Nat.toDigits 16 group.toNat ++ (colonGroups groups ++ rest)) = none :=
        readIpv4_eq_none
          (by simp [point_notMem_toDigits, point_notMem_colonGroups, hpoint])
      rw [readGroups_cons (by simp [colonGroups, readChar]) (.inr hplain)
        (hends.endsDigits_colonGroups groups), ih (Nat.le_of_succ_le_succ hroom)]

theorem readGroups_writeGroups (hends : EndsGroups rest) (hpoint : '.' ∉ rest)
    (groups : List UInt16) {room : Nat} (hroom : groups.length ≤ room) :
    readGroups room true (writeGroups groups ++ rest) = (groups, false, rest) := by
  cases groups with
  | nil => exact readGroups_of_endsGroups hends room true
  | cons group groups =>
      obtain ⟨room, rfl⟩ : ∃ fewer, room = fewer + 1 :=
        Nat.exists_eq_add_one.2 (Nat.lt_of_lt_of_le (Nat.succ_pos _) hroom)
      have hplain : readIpv4 (Nat.toDigits 16 group.toNat ++ (colonGroups groups ++ rest)) = none :=
        readIpv4_eq_none
          (by simp [point_notMem_toDigits, point_notMem_colonGroups, hpoint])
      rw [writeGroups_cons, List.append_assoc, readGroups_cons rfl (.inr hplain)
        (hends.endsDigits_colonGroups groups),
        readGroups_colonGroups hends hpoint groups (Nat.le_of_succ_le_succ hroom)]

/-! ### Zero groups that are left out -/

/-- The run that is left out consists of zero groups, at the place that it is given with. -/
theorem longestZeros_spec (groups : List UInt16) :
    ∃ front back, groups = front ++ List.replicate (longestZeros groups).2 0 ++ back ∧
      front.length = (longestZeros groups).1 := by
  induction groups with
  | nil => exact ⟨[], [], rfl, rfl⟩
  | cons group groups ih =>
      rw [longestZeros]
      split
      next place length hrest =>
        rw [hrest] at ih
        split
        · obtain ⟨front, back, hgroups, hplace⟩ := ih
          exact ⟨group :: front, back, by simpa using hgroups, by simpa using hplace⟩
        · have hzeros : (group :: groups).takeWhile (· == 0) =
              List.replicate (leadingZeros (group :: groups)) 0 :=
            List.eq_replicate_iff.2 ⟨rfl, fun zero hzero => by
              simpa using List.mem_takeWhile_imp hzero⟩
          refine ⟨[], (group :: groups).dropWhile (· == 0), ?_, rfl⟩
          rw [List.nil_append, ← hzeros, List.takeWhile_append_dropWhile]

/-! ### Both versions in one -/

/-- A number of two bytes is put together again from its upper and its lower byte. -/
theorem shiftLeft_or_toUInt8 (group : UInt16) :
    (group >>> 8).toUInt8.toUInt16 <<< 8 ||| group.toUInt8.toUInt16 = group := by
  have hgroup : group.toNat < 2 ^ 16 := group.toNat_lt
  have hshift : UInt16.toNat 8 % 16 = 8 := rfl
  have hupper : (group.toNat >>> 8 % 2 ^ 8) <<< 8 % 2 ^ 16 = 2 ^ 8 * (group.toNat / 2 ^ 8) := by
    rw [Nat.shiftRight_eq_div_pow, Nat.shiftLeft_eq]
    omega
  apply UInt16.toNat_inj.1
  calc
    _ = (group.toNat >>> 8 % 2 ^ 8) <<< 8 % 2 ^ 16 ||| group.toNat % 2 ^ 8 := by
      simp only [UInt16.toNat_or, UInt16.toNat_shiftLeft, UInt8.toNat_toUInt16,
        UInt16.toNat_toUInt8, UInt16.toNat_shiftRight, hshift]
    _ = 2 ^ 8 * (group.toNat / 2 ^ 8) + group.toNat % 2 ^ 8 := by
      rw [hupper, Nat.two_pow_add_eq_or_of_lt (Nat.mod_lt _ (by decide))]
    _ = group.toNat := Nat.div_add_mod _ _

theorem Ipv6.groups_of_mapped? {address : Ipv6} {inner : Ipv4}
    (hmapped : address.mapped? = some inner) :
    address.groups = [0, 0, 0, 0, 0, 0xFFFF] ++ inner.groups := by
  rw [mapped?] at hmapped
  split at hmapped
  next high low hgroups =>
    obtain rfl := Option.some.inj hmapped
    rw [hgroups, Ipv4.groups, shiftLeft_or_toUInt8, shiftLeft_or_toUInt8]
    rfl
  · cases hmapped

theorem Ipv6.ofGroups?_groups (address : Ipv6) : ofGroups? address.groups = some address :=
  dif_pos address.length_eq

/-- An address of version 4 is read in place of the last two groups. -/
theorem readGroups_ipv4 (address : Ipv4) (room : Nat) :
    readGroups (room + 2) false (':' :: address.write) = (address.groups, true, []) := by
  have hread := readIpv4_write address .nil
  rw [List.append_nil] at hread
  simp [readGroups, readChar, hread]

/-- What is read around a double colon is filled up with zero groups. -/
theorem readIpv6_of_gap {address : Ipv6} {chars behind : List Char} {front back : List UInt16}
    {length : Nat} {embedded : Bool}
    (hgroups : address.groups = front ++ List.replicate (length + 1) 0 ++ back)
    (hfront : readGroups 8 true chars = (front, false, ':' :: ':' :: behind))
    (hback : readGroups (length + back.length) true behind = (back, embedded, [])) :
    readIpv6 chars = some (address, []) := by
  have hlength : front.length + (length + 1 + back.length) = 8 := by
    simpa [hgroups] using address.length_eq
  have hroom : 7 - front.length = length + back.length := by omega
  have hzeros : 8 - front.length - back.length = length + 1 := by omega
  have hgap : ¬front.length = 8 := by omega
  have haddress := address.ofGroups?_groups
  rw [hgroups, List.append_assoc] at haddress
  simp [readIpv6, hfront, hgap, readChar, hroom, hback, hzeros, haddress]

theorem EndsGroups.doubleColon (behind : List Char) : EndsGroups (':' :: ':' :: behind) :=
  .inr ⟨behind, rfl⟩

theorem readIpv6_gap {address : Ipv6} {front back : List UInt16} {length : Nat}
    (hgroups : address.groups = front ++ List.replicate (length + 1) 0 ++ back) :
    readIpv6 (writeGroups front ++ ':' :: ':' :: writeGroups back) = some (address, []) := by
  have hlength : front.length + (length + 1 + back.length) = 8 := by
    simpa [hgroups] using address.length_eq
  have hroom : front.length ≤ 8 := by omega
  have hfront := readGroups_writeGroups (.doubleColon (writeGroups back))
    (by simp [point_notMem_writeGroups]) front hroom
  have hback : readGroups (length + back.length) true (writeGroups back) = (back, false, []) := by
    simpa using readGroups_writeGroups (.inl rfl) (by simp) back (Nat.le_add_left _ length)
  exact readIpv6_of_gap hgroups hfront hback

/-- The mark of an embedded address is a gap and a group. -/
theorem toList_mapped : "::ffff:".toList =
    ':' :: ':' :: (Nat.toDigits 16 (0xFFFF : UInt16).toNat ++ [':']) := by
  decide

theorem readIpv6_mapped {address : Ipv6} {inner : Ipv4} (hmapped : address.mapped? = some inner) :
    readIpv6 ("::ffff:".toList ++ inner.write) = some (address, []) := by
  have hgroups : address.groups = [] ++ List.replicate 5 0 ++ 0xFFFF :: inner.groups :=
    Ipv6.groups_of_mapped? hmapped
  have hback : readGroups 7 true (Nat.toDigits 16 (0xFFFF : UInt16).toNat ++ ':' :: inner.write) =
      (0xFFFF :: inner.groups, true, []) := by
    rw [readGroups_cons rfl (.inr (readIpv4_cons_of_not (by decide))) (.cons (by decide)),
      readGroups_ipv4 inner 4]
  have htext : "::ffff:".toList ++ inner.write =
      ':' :: ':' :: (Nat.toDigits 16 (0xFFFF : UInt16).toNat ++ ':' :: inner.write) := by
    simp [toList_mapped]
  rw [htext]
  exact readIpv6_of_gap hgroups (readGroups_of_endsGroups (.doubleColon _) 8 true) hback

theorem readIpv6_full (address : Ipv6) :
    readIpv6 (writeGroups address.groups) = some (address, []) := by
  have hread : readGroups 8 true (writeGroups address.groups) = (address.groups, false, []) := by
    simpa using readGroups_writeGroups (.inl rfl) (by simp) address.groups
      (Nat.le_of_eq address.length_eq)
  simp [readIpv6, hread, address.length_eq, address.ofGroups?_groups]

/-- The text of an address of version 6 is read off as this address. -/
theorem readIpv6_write (address : Ipv6) : readIpv6 address.write = some (address, []) := by
  rw [Ipv6.write]
  split
  next inner hmapped => exact readIpv6_mapped hmapped
  · obtain ⟨front, back, hgroups, hplace⟩ := longestZeros_spec address.groups
    generalize longestZeros address.groups = longest at *
    obtain ⟨place, length⟩ := longest
    dsimp only at *
    split
    next hlong =>
      obtain ⟨fewer, rfl⟩ : ∃ fewer, length = fewer + 1 := Nat.exists_eq_add_one.2 (by omega)
      have htake : address.groups.take place = front := by simp [hgroups, ← hplace]
      have hdrop : address.groups.drop (place + (fewer + 1)) = back := by
        rw [hgroups, List.drop_left' (by simp [hplace])]
      rw [htake, hdrop]
      exact readIpv6_gap hgroups
    · exact readIpv6_full address

/-- No text of an address of version 6 is that of one of version 4. -/
theorem readIpv4_ipv6_write (address : Ipv6) : readIpv4 address.write = none := by
  rw [Ipv6.write]
  split
  · exact readIpv4_colon
  · dsimp only
    split
    · exact readIpv4_eq_none (by simp [point_notMem_writeGroups])
    · exact readIpv4_eq_none (point_notMem_writeGroups _)

end Version6

/-! ## Both versions -/

namespace Address

/-- The text of an address is read as this address. -/
theorem ofText?_text (address : Address) : ofText? address.text = some address := by
  cases address with
  | v4 address =>
      have hread := readIpv4_write address .nil
      rw [List.append_nil] at hread
      simp [ofText?, read?, text, hread]
  | v6 address => simp [ofText?, read?, text, readIpv4_ipv6_write, readIpv6_write]

/-- Different addresses have different texts. -/
theorem text_injective : Function.Injective text := by
  intro address other hsame
  have hread := ofText?_text address
  rw [hsame, ofText?_text] at hread
  exact (Option.some.inj hread).symm

end Address

end Upkeep.Net
