/-
# Parameters of a query

A query is split at its ampersands, and each piece at its first equals sign. What stands between
these signs is decoded, and a text without a percent sign and a plus sign is its own code if it is
ASCII. So a parameter may be written into a query as it is, and if no other one has its name, it is
found there, whatever stands before it and behind it.
-/

import Mathlib.Data.List.TakeWhile
import Upkeep.Http.Query
import Upkeep.Http.Request
import Upkeep.Proofs.Signature

namespace Upkeep

namespace Text.Utf8

/-- Nothing in an ASCII text has to be replaced. -/
theorem lenientOnto_of_ascii {chars : List Char} (hascii : ∀ c ∈ chars, c.toNat < 128)
    (read : List Char) :
    lenientOnto read (chars.flatMap String.utf8EncodeChar) = read.reverse ++ chars := by
  induction chars generalizing read with
  | nil => rw [List.flatMap_nil, lenientOnto, List.append_nil]
  | cons c chars ih =>
      have hc := hascii c List.mem_cons_self
      have hsmall : UInt8.ofNat c.toNat < 0x80 := by
        rw [UInt8.lt_iff_toNat_lt, toNat_ofNat_of_lt hc]
        exact hc
      rw [List.flatMap_cons, encodeChar_of_lt hc, List.singleton_append, lenientOnto,
        if_pos hsmall, ih fun d hd => hascii d (List.mem_cons_of_mem c hd), toNat_ofNat_of_lt hc,
        Char.ofNat_toNat, List.reverse_cons, List.append_assoc, List.singleton_append]

theorem decodeLenient_encode {text : String} (hascii : ∀ c ∈ text.toList, c.toNat < 128) :
    decodeLenient (encode text) = text := by
  rw [decodeLenient, ← String.ofList_toList (s := text), encode_ofList,
    lenientOnto_of_ascii (by simpa using hascii)]
  rfl

/-- The bytes of joined texts are those of the texts, joined in the same way. -/
theorem encode_intercalate (separator : String) (parts : List String) :
    encode (separator.intercalate parts) =
      (encode separator).intercalate (parts.map encode) := by
  induction parts with
  | nil => rfl
  | cons part parts ih =>
      cases parts with
      | nil => simp
      | cons next parts =>
          rw [String.intercalate_cons_cons, List.map_cons, List.map_cons,
            List.intercalate_cons_cons, encode_append, encode_append, ih, List.map_cons]

end Text.Utf8

namespace Http.Query

open Text.Utf8

/-- A text that can be written into a query as it is. -/
def Unescaped (text : String) : Prop :=
  ∀ c ∈ text.toList, c.toNat < 128 ∧ c ≠ '%' ∧ c ≠ '+'

instance : DecidablePred Unescaped :=
  fun text => List.decidableBAll _ text.toList

/-- Bytes other than percent and plus signs stand for themselves. -/
theorem decodeBytes_eq_self {bytes : List UInt8} (hpercent : 0x25 ∉ bytes) (hplus : 0x2B ∉ bytes) :
    decodeBytes bytes = bytes := by
  induction bytes with
  | nil => rw [decodeBytes]
  | cons byte bytes ih =>
      rw [List.mem_cons, not_or] at hpercent hplus
      unfold decodeBytes
      rw [if_neg (Ne.symm hplus.1), if_neg (Ne.symm hpercent.1), ih hpercent.2 hplus.2]

theorem decode_encode {text : String} (hunescaped : Unescaped text) :
    decode (encode text) = text := by
  have hpercent : 0x25 ∉ encode text := fun hmem =>
    (hunescaped '%' ((mem_encode_iff (by decide)).1 hmem)).2.1 rfl
  have hplus : 0x2B ∉ encode text := fun hmem =>
    (hunescaped '+' ((mem_encode_iff (by decide)).1 hmem)).2.2 rfl
  rw [decode, decodeBytes_eq_self hpercent hplus,
    decodeLenient_encode fun c hc => (hunescaped c hc).1]

section Parameter

variable {name value : String}

/-- The bytes of a parameter: its name, an equals sign and its value. -/
theorem encode_parameter :
    encode (name ++ "=" ++ value) = encode name ++ 0x3D :: encode value := by
  rw [encode_append, encode_append, List.append_assoc]
  rfl

/-- A parameter whose name has no equals sign is read as its name and its value. -/
theorem entry_parameter (hname : Unescaped name) (hequals : '=' ∉ name.toList)
    (hvalue : Unescaped value) : entry (encode (name ++ "=" ++ value)) = (name, value) := by
  have hbytes : ∀ byte ∈ encode name, (byte ≠ 0x3D : Bool) = true := by
    intro byte hbyte
    simp only [ne_eq, decide_not, Bool.not_eq_true', decide_eq_false_iff_not]
    rintro rfl
    exact hequals ((mem_encode_iff (by decide)).1 hbyte)
  rw [entry, encode_parameter, List.takeWhile_append_of_pos hbytes,
    List.dropWhile_append_of_pos hbytes]
  simp [decode_encode hname, decode_encode hvalue]

end Parameter

/-! ## Several parameters -/

/-- A query is split where its separators are. -/
theorem pieces_eq_splitOn (separator : UInt8) (bytes : List UInt8) :
    pieces separator bytes = bytes.splitOn separator := by
  induction bytes with
  | nil => rfl
  | cons byte bytes ih =>
      rw [List.splitOn_cons_eq_if_modifyHead, pieces, ← ih]
      by_cases hseparator : byte = separator
      · rw [if_pos hseparator, if_pos (beq_iff_eq.2 hseparator)]
      · have hpieces : pieces separator bytes ≠ [] := ih ▸ List.splitOn_ne_nil separator bytes
        obtain ⟨piece, others, hfirst⟩ := List.exists_cons_of_ne_nil hpieces
        rw [if_neg hseparator, if_neg (mt beq_iff_eq.1 hseparator), hfirst]
        rfl

/-- Joined by ampersands, pieces without one are the pieces of the query. -/
theorem pieces_intercalate {parts : List String} (hparts : parts ≠ [])
    (hwhole : ∀ part ∈ parts, '&' ∉ part.toList) :
    pieces 0x26 (encode ("&".intercalate parts)) = parts.map encode := by
  rw [encode_intercalate, pieces_eq_splitOn]
  refine List.splitOn_intercalate 0x26 ?_ (by simpa using hparts)
  intro bytes hbytes hampersand
  obtain ⟨part, hpart, rfl⟩ := List.mem_map.1 hbytes
  exact hwhole part hpart ((mem_encode_iff (by decide)).1 hampersand)

/-- A piece of a query that gives no value for a name. -/
structure IsOther (name part : String) : Prop where
  whole : '&' ∉ part.toList
  named : (entry (encode part)).1 ≠ name

section Single

variable {name value : String} {before behind parts : List String}

theorem filter_others (hothers : ∀ part ∈ parts, IsOther name part) :
    ((((parts.map encode).filter fun piece => !piece.isEmpty).map entry).filter
      fun entry => entry.1 = name) = [] := by
  rw [List.filter_eq_nil_iff]
  intro parameter hparameter
  obtain ⟨piece, hpiece, rfl⟩ := List.mem_map.1 hparameter
  obtain ⟨part, hpart, rfl⟩ := List.mem_map.1 (List.mem_of_mem_filter hpiece)
  simpa using (hothers part hpart).named

/-- A parameter is found among others. -/
theorem single?_intercalate (hname : Unescaped name) (hequals : '=' ∉ name.toList)
    (hampersand : '&' ∉ (name ++ "=" ++ value).toList) (hvalue : Unescaped value)
    (hothers : ∀ part ∈ before ++ behind, IsOther name part) :
    single? ("&".intercalate (before ++ (name ++ "=" ++ value) :: behind)) name = some value := by
  have hwhole : ∀ part ∈ before ++ (name ++ "=" ++ value) :: behind, '&' ∉ part.toList := by
    intro part hpart
    rw [List.mem_append, List.mem_cons] at hpart
    rcases hpart with hbefore | rfl | hbehind
    · exact (hothers part (List.mem_append_left _ hbefore)).whole
    · exact hampersand
    · exact (hothers part (List.mem_append_right _ hbehind)).whole
  have hfront := filter_others fun part hpart => hothers part (List.mem_append_left behind hpart)
  have hback := filter_others fun part hpart => hothers part (List.mem_append_right before hpart)
  have hempty : (!(encode (name ++ "=" ++ value)).isEmpty) = true := by
    rw [encode_parameter]
    simp
  rw [single?, entries, pieces_intercalate (by simp) hwhole, List.map_append, List.map_cons,
    List.filter_append, List.filter_cons, if_pos hempty, List.map_append, List.map_cons,
    entry_parameter hname hequals hvalue, List.filter_append, List.filter_cons,
    if_pos (decide_eq_true rfl), hfront, hback]
  rfl

end Single

end Http.Query

namespace Http.Request

/-- The query of a target that is made of a path and a query. -/
theorem query_of_target {request : Request} {path query : String}
    (htarget : request.target = "/" ++ path ++ "?" ++ query) (hmark : '?' ∉ path.toList)
    (hpath : '#' ∉ path.toList) (hquery : '#' ∉ query.toList) : request.query = query := by
  have hchars : request.target.toList = '/' :: (path.toList ++ '?' :: query.toList) := by
    rw [htarget]
    simp
  have hwhole : ∀ c ∈ '/' :: (path.toList ++ '?' :: query.toList), decide (c ≠ '#') = true := by
    have hsame : '#' ∉ '/' :: (path.toList ++ '?' :: query.toList) := by simp [hpath, hquery]
    exact fun c hc => decide_eq_true fun hmark => hsame (hmark ▸ hc)
  have hfront : ∀ c ∈ '/' :: path.toList, decide (c ≠ '?') = true := by
    have hsame : '?' ∉ '/' :: path.toList := by simp [hmark]
    exact fun c hc => decide_eq_true fun hquestion => hsame (hquestion ▸ hc)
  rw [Request.query, resource, hchars, behindHost, List.takeWhile_eq_self_iff.2 hwhole,
    ← List.cons_append, List.dropWhile_append_of_pos hfront]
  simp

end Http.Request

end Upkeep
