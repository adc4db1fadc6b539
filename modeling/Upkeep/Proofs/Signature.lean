/-
# One spelling for each signature

A digest has one text, and only that text is read as this digest. So a request is signed for a
payload when its first signature header is, byte for byte, what the authenticator would have
written: nothing else passes, be it upper case, blanks around it, or a second header.
-/

import Mathlib.Data.List.Basic
import Mathlib.Tactic.IntervalCases
import Upkeep.Signature

namespace Upkeep

/-! ## Texts of ASCII characters -/

namespace Text.Utf8

theorem encode_injective : Function.Injective encode := by
  intro s t hsame
  have hread := decode?_encode s
  rw [hsame, decode?_encode] at hread
  exact (Option.some.inj hread).symm

theorem encode_ofList (cs : List Char) :
    encode (String.ofList cs) = cs.flatMap String.utf8EncodeChar := by
  simp [encode, List.utf8Encode]

theorem encode_append (s t : String) : encode (s ++ t) = encode s ++ encode t := by
  simp [encode]

/-- An ASCII character is one byte. -/
theorem encodeChar_of_lt {c : Char} (hascii : c.toNat < 128) :
    String.utf8EncodeChar c = [UInt8.ofNat c.toNat] := by
  have hval : c.val.toNat ≤ 0x7f := Nat.le_of_lt_succ hascii
  rw [String.utf8EncodeChar, if_pos hval]
  rfl

/-- The bytes of a character beyond ASCII are beyond ASCII. -/
theorem le_of_mem_encodeChar {c : Char} (hlarge : 128 ≤ c.toNat) {byte : UInt8}
    (hbyte : byte ∈ String.utf8EncodeChar c) : 0x80 ≤ byte := by
  have hofNat : ∀ n, 128 ≤ n → n < 256 → (0x80 : UInt8) ≤ UInt8.ofNat n := by
    intro n hlow hhigh
    rw [UInt8.le_iff_toNat_le, UInt8.toNat_ofNat_of_lt' hhigh]
    exact hlow
  have hval : ¬c.val.toNat ≤ 127 := Nat.not_le.2 hlarge
  rw [String.utf8EncodeChar, if_neg hval] at hbyte
  split at hbyte
  · simp only [List.mem_cons, List.not_mem_nil, or_false] at hbyte
    rcases hbyte with rfl | rfl <;> apply hofNat <;> omega
  split at hbyte
  · simp only [List.mem_cons, List.not_mem_nil, or_false] at hbyte
    rcases hbyte with rfl | rfl | rfl <;> apply hofNat <;> omega
  · simp only [List.mem_cons, List.not_mem_nil, or_false] at hbyte
    rcases hbyte with rfl | rfl | rfl | rfl <;> apply hofNat <;> omega

/-- The byte of an ASCII character has its code. -/
theorem toNat_ofNat_of_lt {c : Char} (hascii : c.toNat < 128) :
    (UInt8.ofNat c.toNat).toNat = c.toNat :=
  UInt8.toNat_ofNat_of_lt' (hascii.trans (by decide))

/-- The byte of an ASCII character is in a text only where this character is. -/
theorem mem_encode_iff {c : Char} (hascii : c.toNat < 128) {text : String} :
    UInt8.ofNat c.toNat ∈ encode text ↔ c ∈ text.toList := by
  rw [← String.ofList_toList (s := text), encode_ofList, String.toList_ofList, List.mem_flatMap]
  constructor
  · rintro ⟨d, hd, hbyte⟩
    by_cases hsmall : d.toNat < 128
    · rw [encodeChar_of_lt hsmall, List.mem_singleton, ← UInt8.toNat_inj,
        toNat_ofNat_of_lt hascii, toNat_ofNat_of_lt hsmall] at hbyte
      rwa [Char.toNat_inj.1 hbyte]
    · have hlarge := le_of_mem_encodeChar (Nat.not_lt.1 hsmall) hbyte
      rw [UInt8.le_iff_toNat_le, toNat_ofNat_of_lt hascii] at hlarge
      exact absurd hlarge (Nat.not_le.2 hascii)
  · intro hc
    refine ⟨c, hc, ?_⟩
    rw [encodeChar_of_lt hascii]
    exact List.mem_singleton_self _

end Text.Utf8

namespace Http

theorem toNat_lt_of_isReadable {byte : UInt8} (hreadable : isReadable byte = true) :
    byte.toNat < 128 := by
  simp only [isReadable, Bool.or_eq_true, Bool.and_eq_true, beq_iff_eq,
    decide_eq_true_eq] at hreadable
  rcases hreadable with rfl | ⟨-, hlt⟩
  · decide
  · have := UInt8.lt_iff_toNat_lt.1 hlt
    simp at this
    omega

/-- The bytes of a readable value are tabs, spaces and visible ASCII characters. -/
theorem isReadable_iff {byte : UInt8} :
    isReadable byte = true ↔ byte = 0x09 ∨ 0x20 ≤ byte ∧ byte ≤ 0x7E := by
  have hlast : byte < 0x7F ↔ byte ≤ 0x7E := by
    rw [UInt8.lt_iff_toNat_lt, UInt8.le_iff_toNat_le]
    exact Nat.lt_succ_iff
  simp only [isReadable, Bool.or_eq_true, beq_iff_eq, Bool.and_eq_true, decide_eq_true_eq, hlast]

/-- A value is read as the text that it is the bytes of. -/
theorem readable?_eq_some_iff {value : List UInt8} {text : String} :
    readable? value = some text ↔ value.all isReadable = true ∧ Text.Utf8.encode text = value := by
  have hback : value.all isReadable = true →
      Text.Utf8.encode (String.ofList (value.map fun b => Char.ofNat b.toNat)) = value := by
    intro hall
    have hascii : ∀ code < 128, (Char.ofNat code).toNat = code := by decide
    have hbyte : ∀ byte ∈ value, String.utf8EncodeChar (Char.ofNat byte.toNat) = [byte] := by
      intro byte hbyte
      have hlt := toNat_lt_of_isReadable (List.all_eq_true.1 hall byte hbyte)
      have hchar : (Char.ofNat byte.toNat).toNat = byte.toNat := hascii byte.toNat hlt
      rw [Text.Utf8.encodeChar_of_lt (hchar.trans_lt hlt), hchar, UInt8.ofNat_toNat]
    rw [Text.Utf8.encode_ofList, List.flatMap_map, List.flatMap_congr hbyte]
    simp
  constructor
  · intro hread
    simp only [readable?, Option.ite_none_right_eq_some, Option.some.injEq] at hread
    obtain ⟨hall, rfl⟩ := hread
    exact ⟨hall, hback hall⟩
  · rintro ⟨hall, htext⟩
    rw [readable?, if_pos hall]
    congr 1
    apply Text.Utf8.encode_injective
    rw [hback hall, htext]

/-- A text of readable characters is read as it is. -/
theorem readable?_encode {text : String}
    (hreadable : ∀ c ∈ text.toList, (String.utf8EncodeChar c).all isReadable = true) :
    readable? (Text.Utf8.encode text) = some text := by
  refine readable?_eq_some_iff.2 ⟨?_, rfl⟩
  rw [← String.ofList_toList (s := text), Text.Utf8.encode_ofList, List.all_flatMap,
    List.all_eq_true]
  exact hreadable

/-- The first value of a name is that of the first field with this name. -/
theorem Headers.head?_values_eq_some_iff {headers : Headers} {name : String}
    {value : List UInt8} :
    (headers.values name).head? = some value ↔
      ∃ front field back, headers = front ++ (field, value) :: back ∧ sameName field name = true ∧
        ∀ other ∈ front, sameName other.1 name = false := by
  rw [Headers.values, List.head?_map, List.head?_filter, Option.map_eq_some_iff]
  constructor
  · rintro ⟨⟨field, _⟩, hfind, rfl⟩
    obtain ⟨hname, front, back, hsplit, hfront⟩ := List.find?_eq_some_iff_append.1 hfind
    refine ⟨front, field, back, hsplit, hname, fun other hother => ?_⟩
    simpa using hfront other hother
  · rintro ⟨front, field, back, hsplit, hname, hfront⟩
    refine ⟨(field, value), List.find?_eq_some_iff_append.2 ⟨hname, front, back, hsplit, ?_⟩, rfl⟩
    intro other hother
    simpa using hfront other hother

end Http

/-! ## Hexadecimal digits -/

namespace Text.Hex

/-- The lowercase digits are those that numbers are written with. -/
theorem lowerValue?_eq_some_iff {c : Char} {value : Nat} :
    lowerValue? c = some value ↔ value < 16 ∧ c = Nat.digitChar value := by
  constructor
  · intro hread
    have hsmall : c.toNat < 128 := by
      by_contra hlarge
      have hnone : value? c.toNat = none := by
        rw [value?, if_neg (by omega), if_neg (by omega), if_neg (by omega)]
      simp [lowerValue?, hnone] at hread
    have hall : ∀ code < 128, ∀ value ∈ lowerValue? (Char.ofNat code),
        value < 16 ∧ Char.ofNat code = Nat.digitChar value := by decide
    have hdigit := hall c.toNat hsmall value (by rwa [Char.ofNat_toNat])
    rwa [Char.ofNat_toNat] at hdigit
  · rintro ⟨hlt, rfl⟩
    interval_cases value <;> rfl

/-- A byte is its two digits. -/
theorem digits_ofNat {high low : Nat} (hhigh : high < 16) (hlow : low < 16) :
    digits (UInt8.ofNat (16 * high + low)) = [Nat.digitChar high, Nat.digitChar low] := by
  have hbyte : (UInt8.ofNat (16 * high + low)).toNat = 16 * high + low :=
    UInt8.toNat_ofNat_of_lt (by simp only [UInt8.size]; omega)
  have hdiv : (16 * high + low) / 16 = high := by omega
  have hmod : (16 * high + low) % 16 = low := by omega
  rw [digits, hbyte, hdiv, hmod]

/-- Only the digits of a sequence of bytes are read as it. -/
theorem decodeLower?_eq_some_iff {cs : List Char} {bytes : List UInt8} :
    decodeLower? cs = some bytes ↔ cs = bytes.flatMap digits := by
  fun_induction decodeLower? cs generalizing bytes with
  | case1 =>
      cases bytes with
      | nil => simp
      | cons byte bytes => simp [digits]
  | case2 c =>
      cases bytes with
      | nil => simp
      | cons byte bytes => simp [digits]
  | case3 high low rest ih =>
      constructor
      · intro hread
        simp only [Option.bind_eq_bind, Option.bind_eq_some_iff, Option.pure_def,
          Option.some.injEq] at hread
        obtain ⟨h, hhigh, l, hlow, behind, hrest, rfl⟩ := hread
        obtain ⟨hh, rfl⟩ := lowerValue?_eq_some_iff.1 hhigh
        obtain ⟨hl, rfl⟩ := lowerValue?_eq_some_iff.1 hlow
        rw [List.flatMap_cons, digits_ofNat hh hl, ih.1 hrest]
        rfl
      · intro hdigits
        cases bytes with
        | nil => cases hdigits
        | cons byte bytes =>
            simp only [List.flatMap_cons, digits, List.cons_append, List.nil_append,
              List.cons.injEq] at hdigits
            obtain ⟨rfl, rfl, hrest⟩ := hdigits
            have hhigh : byte.toNat / 16 < 16 := by
              have := byte.toNat_lt
              omega
            have hlow : byte.toNat % 16 < 16 := Nat.mod_lt _ (by decide)
            have hbyte : UInt8.ofNat (16 * (byte.toNat / 16) + byte.toNat % 16) = byte := by
              rw [Nat.div_add_mod, UInt8.ofNat_toNat]
            simp only [lowerValue?_eq_some_iff.2 ⟨hhigh, rfl⟩,
              lowerValue?_eq_some_iff.2 ⟨hlow, rfl⟩, ih.2 hrest, Option.bind_eq_bind,
              Option.bind_some, Option.pure_def, hbyte]

/-- Bytes can be read off their digits. -/
theorem flatMap_digits_inj {bytes others : List UInt8} :
    bytes.flatMap digits = others.flatMap digits ↔ bytes = others := by
  rw [← decodeLower?_eq_some_iff, decodeLower?_eq_some_iff.2 rfl, Option.some.injEq]

/-- The digits of bytes are hexadecimal ones. -/
theorem exists_of_mem_flatMap_digits {bytes : List UInt8} {c : Char}
    (hc : c ∈ bytes.flatMap digits) : ∃ d < 16, c = Nat.digitChar d := by
  obtain ⟨byte, -, hdigits⟩ := List.mem_flatMap.1 hc
  have hlt := byte.toNat_lt
  rw [digits, List.mem_pair] at hdigits
  rcases hdigits with hhigh | hlow
  · exact ⟨byte.toNat / 16, by omega, hhigh⟩
  · exact ⟨byte.toNat % 16, by omega, hlow⟩

/-- Digits can be read in a header. -/
theorem isReadable_of_mem_encode (bytes : List UInt8) :
    (Utf8.encode (encode bytes)).all Http.isReadable = true := by
  have hdigit : ∀ value < 16,
      (String.utf8EncodeChar (Nat.digitChar value)).all Http.isReadable = true := by decide
  rw [encode, Utf8.encode_ofList, List.all_flatMap, List.all_eq_true]
  intro c hc
  obtain ⟨value, hvalue, rfl⟩ := exists_of_mem_flatMap_digits hc
  exact hdigit value hvalue

end Text.Hex

/-! ## Signatures -/

namespace Signature

theorem toList_write (bytes : List UInt8) :
    (write bytes).toList = opening.toList ++ bytes.flatMap Text.Hex.digits := by
  simp [write, Text.Hex.encode]

/-- A header value states the digest that it is the text of, and no other. -/
theorem read?_eq_some_iff {header : String} {digest : Digest} :
    read? header = some digest ↔ header = write digest.bytes := by
  constructor
  · intro hread
    simp only [read?, Option.ite_none_right_eq_some] at hread
    obtain ⟨hopening, hread⟩ := hread
    obtain ⟨digits, hdigits⟩ := List.isPrefixOf_iff_prefix.1 hopening
    rw [← hdigits, ← String.length_toList, List.drop_left] at hread
    split at hread
    next bytes hdecode =>
      rw [Option.dite_none_right_eq_some] at hread
      obtain ⟨hlength, hsame⟩ := hread
      rw [← Option.some.inj hsame, ← String.toList_inj, toList_write, ← hdigits,
        Text.Hex.decodeLower?_eq_some_iff.1 hdecode]
    · cases hread
  · rintro rfl
    have hopening : opening.toList.isPrefixOf (write digest.bytes).toList = true := by
      rw [toList_write]
      exact List.isPrefixOf_iff_prefix.2 (List.prefix_append ..)
    have hdigits := Text.Hex.decodeLower?_eq_some_iff.2 (Eq.refl (digest.bytes.flatMap _))
    rw [read?, if_pos hopening, toList_write, ← String.length_toList, List.drop_left, hdigits]
    exact dif_pos digest.length_eq

end Signature

namespace Authenticator

variable (auth : Authenticator)

/-- The one header value that signs a payload is what signing it gives. -/
theorem verify_iff (payload : List UInt8) (header : String) :
    auth.verify payload header = true ↔ header = auth.sign payload := by
  rw [verify, sign]
  constructor
  · intro hverify
    split at hverify
    next stated hread =>
      rw [← of_decide_eq_true hverify]
      exact Signature.read?_eq_some_iff.1 hread
    · cases hverify
  · intro hsigned
    rw [Signature.read?_eq_some_iff.2 hsigned]
    exact decide_eq_true rfl

/-- A signature can be read in a header. -/
theorem readable?_sign (payload : List UInt8) :
    Http.readable? (Text.Utf8.encode (auth.sign payload)) = some (auth.sign payload) := by
  rw [Http.readable?_eq_some_iff]
  refine ⟨?_, rfl⟩
  rw [sign, Signature.write, Text.Utf8.encode_append, List.all_append, Bool.and_eq_true]
  exact ⟨by decide, Text.Hex.isReadable_of_mem_encode _⟩

/-- A request is signed for a payload when the first of its signature headers is the one that
signs it. -/
theorem validate_iff (headers : Http.Headers) (payload : List UInt8) :
    auth.validate headers payload = true ↔
      (headers.values Signature.headerName).head? =
        some (Text.Utf8.encode (auth.sign payload)) := by
  rw [validate, Http.Headers.text?]
  constructor
  · intro hvalid
    split at hvalid
    next header hheader =>
      obtain ⟨value, hfirst, hread⟩ := Option.bind_eq_some_iff.1 hheader
      rw [hfirst, ← (auth.verify_iff payload header).1 hvalid,
        (Http.readable?_eq_some_iff.1 hread).2]
    · cases hvalid
  · intro hfirst
    rw [hfirst, Option.bind_some, auth.readable?_sign]
    exact (auth.verify_iff payload _).2 rfl

/-- The name of the signature header may be written in any letter case. -/
theorem sameName_headerName (field : String) :
    Http.sameName field Signature.headerName = Http.sameName field "X-Cloud-Update-Signature" := by
  have hlower : Signature.headerName.toLower = "X-Cloud-Update-Signature".toLower := by
    rw [← String.toList_inj]
    show (Signature.headerName.map Char.toLower).toList =
      ("X-Cloud-Update-Signature".map Char.toLower).toList
    simp [Signature.headerName]
  rw [Http.sameName, Http.sameName, hlower]

/-- With any secret of sufficient length, a header value signs a payload if and only if it is the
one that signing gives, and a request is signed for its body if and only if the first of its
signature headers can be read and is that value. -/
theorem signed_iff_of_long (secret : List UInt8) (hlong : minSecretLength ≤ secret.length) :
    ∃ auth, ofSecret secret = .ok auth ∧ auth.secret = secret ∧
      (∀ payload header, auth.verify payload header = true ↔ header = auth.sign payload) ∧
      ∀ (headers : Http.Headers) (body : List UInt8),
        auth.validate headers body = true ↔
          ∃ front field value back, headers = front ++ (field, value) :: back ∧
            Http.sameName field "X-Cloud-Update-Signature" = true ∧
            (∀ other ∈ front, Http.sameName other.1 "X-Cloud-Update-Signature" = false) ∧
            (∀ byte ∈ value, byte = 0x09 ∨ 0x20 ≤ byte ∧ byte ≤ 0x7E) ∧
            value = Text.Utf8.encode (auth.sign body) := by
  let auth : Authenticator := ⟨secret, hlong⟩
  refine ⟨auth, dif_pos hlong, rfl, auth.verify_iff, ?_⟩
  intro headers body
  rw [auth.validate_iff, Http.Headers.head?_values_eq_some_iff]
  simp only [sameName_headerName]
  constructor
  · rintro ⟨front, field, back, hsplit, hname, hfront⟩
    have hread := (Http.readable?_eq_some_iff.1 (auth.readable?_sign body)).1
    have hbytes : ∀ byte ∈ Text.Utf8.encode (auth.sign body),
        byte = 0x09 ∨ 0x20 ≤ byte ∧ byte ≤ 0x7E :=
      fun byte hbyte => Http.isReadable_iff.1 (List.all_eq_true.1 hread byte hbyte)
    exact ⟨front, field, _, back, hsplit, hname, hfront, hbytes, rfl⟩
  · rintro ⟨front, field, value, back, hsplit, hname, hfront, -, rfl⟩
    exact ⟨front, field, back, hsplit, hname, hfront⟩

/-- Under the shortest secret that is allowed, a header value without any digits signs nothing. -/
theorem opening_signs_nothing :
    minSecretLength ≤ (List.replicate 32 (0x61 : UInt8)).length ∧
      ∃ auth, ofSecret (List.replicate 32 0x61) = .ok auth ∧
        ∀ payload, auth.verify payload Signature.opening = false := by
  have hlong : minSecretLength ≤ (List.replicate 32 (0x61 : UInt8)).length := by decide
  obtain ⟨auth, hauth, -, hverify, -⟩ := signed_iff_of_long _ hlong
  refine ⟨hlong, auth, hauth, fun payload => ?_⟩
  rw [Bool.eq_false_iff, Ne, hverify]
  intro hsame
  have hdigits : Signature.opening.toList =
      Signature.opening.toList ++ (auth.digest payload).bytes.flatMap Text.Hex.digits := by
    rw [← Signature.toList_write]
    exact congrArg String.toList hsame
  have hnone := List.flatMap_eq_nil_iff.1 (List.self_eq_append_right.1 hdigits)
  have hlength := (auth.digest payload).length_eq
  cases hbytes : (auth.digest payload).bytes with
  | nil => simp [hbytes] at hlength
  | cons byte bytes => simpa [Text.Hex.digits] using hnone byte (by simp [hbytes])

end Authenticator

end Upkeep
