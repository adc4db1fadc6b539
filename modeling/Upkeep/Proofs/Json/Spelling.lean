/-
# What values say

The same text can be spelled in many ways: a character may stand for itself or be escaped by a
letter or by its number, and blanks stand wherever tokens meet. Here is what the bytes of a string,
a number and an object say, whichever way they are spelled, and that each is read as this.

A name is a text. Half a pair of surrogates is none, and so it names no member, although it is
passed over inside a value. An integer has neither a fraction nor an exponent, and zero no sign.
-/

import Upkeep.Proofs.Json.Agreement

namespace Upkeep.Json

/-! ## Strings -/

/-- The letters of escapes, each with the character that it stands for. -/
def shortEscapes : List (UInt8 × Char) :=
  [(ascii '"', '"'), (ascii '\\', '\\'), (ascii '/', '/'), (ascii 'b', '\x08'),
    (ascii 'f', '\x0c'), (ascii 'n', '\n'), (ascii 'r', '\r'), (ascii 't', '\t')]

/-- What the bytes between the quotes of a string say. -/
inductive Spells : List UInt8 → List Char → Prop
  | nil : Spells [] []
  | plain {c : Char} {bytes : List UInt8} {chars : List Char} (hquote : c ≠ '"')
      (hbackslash : c ≠ '\\') (hcontrol : ¬c.toNat < 0x20) (hrest : Spells bytes chars) :
      Spells (String.utf8EncodeChar c ++ bytes) (c :: chars)
  | letter {letter : UInt8} {c : Char} {bytes : List UInt8} {chars : List Char}
      (hletter : (letter, c) ∈ shortEscapes) (hrest : Spells bytes chars) :
      Spells (ascii '\\' :: letter :: bytes) (c :: chars)
  | code {digits : List UInt8} {c : Char} {bytes : List UInt8} {chars : List Char}
      (hdigits : IsCode digits c.toNat) (hrest : Spells bytes chars) :
      Spells (ascii '\\' :: ascii 'u' :: (digits ++ bytes)) (c :: chars)
  | pair {high low : List UInt8} {m n : Nat} {c : Char} {bytes : List UInt8} {chars : List Char}
      (hhigh : IsCode high (0xD800 + m)) (hlow : IsCode low (0xDC00 + n)) (hm : m < 0x400)
      (hn : n < 0x400) (hc : c.toNat = 0x10000 + m * 0x400 + n) (hrest : Spells bytes chars) :
      Spells (ascii '\\' :: ascii 'u' :: (high ++ ascii '\\' :: ascii 'u' :: (low ++ bytes)))
        (c :: chars)

/-- A character that needs no escape. -/
def standsForItself (c : Char) : Bool :=
  c != '"' && c != '\\' && 0x20 ≤ c.toNat

section Texts

variable {bytes gathered rest : List UInt8} {chars : List Char}

theorem IsText.append_plain {plain : List UInt8} (hplain : ∀ byte ∈ plain, IsPlain byte)
    (htext : IsText bytes) : IsText (plain ++ bytes) := by
  induction plain with
  | nil => exact htext
  | cons byte plain ih =>
      apply IsText.plain (hplain byte List.mem_cons_self)
      exact ih fun other hother => hplain other (List.mem_cons_of_mem _ hother)

/-- Characters that need no escape say themselves. -/
theorem Spells.of_plain (hplain : chars.all standsForItself = true) :
    Spells (bytesOf chars) chars := by
  induction chars with
  | nil => exact .nil
  | cons c chars ih =>
      rw [List.all_cons, Bool.and_eq_true] at hplain
      obtain ⟨hc, hrest⟩ := hplain
      simp only [standsForItself, Bool.and_eq_true, bne_iff_ne, decide_eq_true_eq] at hc
      obtain ⟨⟨hquote, hbackslash⟩, hcontrol⟩ := hc
      exact .plain hquote hbackslash (Nat.not_lt.2 hcontrol) (ih hrest)

/-- What says something has the form of a string. -/
theorem Spells.isText (hspells : Spells bytes chars) : IsText bytes := by
  induction hspells with
  | nil => exact .nil
  | plain hquote hbackslash hcontrol _ ih =>
      exact ih.append_plain fun _ => isPlain_of_mem_encodeChar hquote hbackslash hcontrol
  | letter hletter _ ih => exact .letter (List.mem_map_of_mem (f := Prod.fst) hletter) ih
  | code hdigits _ ih => exact .code hdigits ih
  | pair hhigh hlow _ _ _ _ ih => exact .code hhigh (.code hlow ih)

theorem readEscape_letter {letter : UInt8} {c : Char} (hletter : (letter, c) ∈ shortEscapes)
    (rest : List UInt8) : readEscape (letter :: rest) = .ok (c, rest) := by
  simp only [shortEscapes, List.mem_cons, Prod.mk.injEq, List.not_mem_nil, or_false] at hletter
  rcases hletter with ⟨rfl, rfl⟩ | ⟨rfl, rfl⟩ | ⟨rfl, rfl⟩ | ⟨rfl, rfl⟩ | ⟨rfl, rfl⟩ |
    ⟨rfl, rfl⟩ | ⟨rfl, rfl⟩ | ⟨rfl, rfl⟩ <;> rfl

/-- The number of a character is not that of a surrogate. -/
theorem not_surrogate (c : Char) : ¬(0xD800 ≤ c.toNat ∧ c.toNat ≤ 0xDFFF) := by
  have hvalid := c.valid
  simp only [UInt32.isValidChar, Nat.isValidChar] at hvalid
  show ¬(0xD800 ≤ c.val.toNat ∧ c.val.toNat ≤ 0xDFFF)
  omega

theorem readEscape_code {digits : List UInt8} {c : Char} (hdigits : IsCode digits c.toNat)
    (rest : List UInt8) : readEscape (ascii 'u' :: (digits ++ rest)) = .ok (c, rest) := by
  have hchar := not_surrogate c
  rw [readEscape, if_pos rfl, hexEscape_append hdigits]
  dsimp only
  rw [if_neg (by omega), if_neg (by omega), Char.ofNat_toNat]

theorem readEscape_pair {high low : List UInt8} {m n : Nat} {c : Char}
    (hhigh : IsCode high (0xD800 + m)) (hlow : IsCode low (0xDC00 + n)) (hm : m < 0x400)
    (hn : n < 0x400) (hc : c.toNat = 0x10000 + m * 0x400 + n) (rest : List UInt8) :
    readEscape (ascii 'u' :: (high ++ ascii '\\' :: ascii 'u' :: (low ++ rest))) =
      .ok (c, rest) := by
  have hword : expectWord [ascii '\\', ascii 'u']
      (ascii '\\' :: ascii 'u' :: (low ++ rest)) = .ok (low ++ rest) :=
    expectWord_append [ascii '\\', ascii 'u'] (low ++ rest)
  have hcode : 0x10000 + (0xD800 + m - 0xD800) * 0x400 + (0xDC00 + n - 0xDC00) = c.toNat := by
    rw [Nat.add_sub_cancel_left, Nat.add_sub_cancel_left, hc]
  rw [readEscape, if_pos rfl, hexEscape_append hhigh]
  dsimp only
  rw [if_neg (by omega), if_pos (by omega), hword]
  dsimp only
  rw [hexEscape_append hlow]
  dsimp only
  rw [if_pos (by omega), hcode, Char.ofNat_toNat]

/-- The bytes of the characters are gathered, however they are spelled. -/
theorem gatherText_of_spells (hspells : Spells bytes chars) :
    gatherText gathered (bytes ++ rest) =
      gatherText ((bytesOf chars).reverse ++ gathered) rest := by
  induction hspells generalizing gathered with
  | nil => rfl
  | @plain c bytes chars hquote hbackslash hcontrol _ ih =>
      have hplain : ∀ byte ∈ String.utf8EncodeChar c, IsPlain byte :=
        fun _ => isPlain_of_mem_encodeChar hquote hbackslash hcontrol
      rw [List.append_assoc, gatherText_of_plain hplain, ih, reverse_bytesOf_cons]
  | letter hletter _ ih =>
      rw [List.cons_append, List.cons_append, gatherText_of_escape (readEscape_letter hletter _),
        ih, reverse_bytesOf_cons]
  | code hdigits _ ih =>
      rw [List.cons_append, List.cons_append, List.append_assoc,
        gatherText_of_escape (readEscape_code hdigits _), ih, reverse_bytesOf_cons]
  | pair hhigh hlow hm hn hc _ ih =>
      simp only [List.cons_append, List.append_assoc]
      rw [gatherText_of_escape (readEscape_pair hhigh hlow hm hn hc _), ih, reverse_bytesOf_cons]

theorem readText_of_spells {text : String} (hspells : Spells bytes text.toList)
    (rest : List UInt8) : readText (bytes ++ ascii '"' :: rest) = .ok (text, rest) := by
  rw [readText, gatherText_of_spells hspells, gatherText_quote]
  dsimp only
  rw [List.append_nil, List.reverse_reverse, ← encode_eq_bytesOf, Text.Utf8.decode?_encode]

end Texts

/-! ## Single values -/

/-- The bytes of a string that says a text. -/
inductive IsString : List UInt8 → String → Prop
  | of {bytes : List UInt8} {text : String} (hspells : Spells bytes text.toList) :
      IsString (ascii '"' :: (bytes ++ [ascii '"'])) text

theorem IsString.isValue {value : List UInt8} {text : String} (hvalue : IsString value text) :
    IsValue value := by
  cases hvalue with
  | of hspells => exact .scalar (.text hspells.isText)

/-- The bytes of an integer. -/
def IsInteger (value : List UInt8) (number : Int) : Prop :=
  value = bytesOf (toString number).toList

/-- The word `null`, or a value of a kind that says something. -/
inductive IsNullOr {α : Type} (Says : List UInt8 → α → Prop) : List UInt8 → Option α → Prop
  | null : IsNullOr Says (ascii 'n' :: nullTail) none
  | value {bytes : List UInt8} {meaning : α} (hmeaning : Says bytes meaning) :
      IsNullOr Says bytes (some meaning)

section Values

variable {blank value rest : List UInt8}

theorem IsString.exists_first {text : String} (hvalue : IsString value text) :
    ∃ first tail, value = first :: tail ∧ isSpace first = false ∧ first ≠ ascii 'n' := by
  cases hvalue with
  | of => exact ⟨_, _, rfl, rfl, by decide⟩

theorem readString_of_isString (hblank : IsBlank blank) {text : String}
    (hvalue : IsString value text) (rest : List UInt8) :
    readString (blank ++ (value ++ rest)) = .ok (text, rest) := by
  cases hvalue with
  | @of bytes _ hspells =>
      rw [readString, skipSpace_append hblank, List.cons_append, skipSpace_of_not_space rfl]
      dsimp only
      rw [if_pos rfl, List.append_assoc]
      exact readText_of_spells hspells rest

theorem readInt64_append (hblank : IsBlank blank) (bytes : List UInt8) :
    readInt64 (blank ++ bytes) = readInt64 bytes := by
  rw [readInt64, skipSpace_append hblank, readInt64]

theorem readInt64_of_isInteger (hblank : IsBlank blank) {number : Int64}
    (hvalue : IsInteger value number.toInt) (hends : EndsNumber rest) :
    readInt64 (blank ++ (value ++ rest)) = .ok (number, rest) := by
  rw [readInt64_append hblank, hvalue, readInt64_written number hends]

/-- An integer has one spelling only. -/
theorem IsInteger.eq {number other : Int} (hnumber : IsInteger value number)
    (hother : IsInteger value other) : number = other := by
  have hbytes : Text.Utf8.encode (toString number) = Text.Utf8.encode (toString other) := by
    rw [encode_eq_bytesOf, encode_eq_bytesOf, ← hnumber, ← hother]
  apply toString_inj
  apply Option.some.inj
  rw [← Text.Utf8.decode?_encode, hbytes, Text.Utf8.decode?_encode]

theorem isInteger_of_signedBy {negative : Bool} {n : Nat} {number : Int}
    (hsigned : SignedBy negative n number) :
    IsInteger ((if negative then [ascii '-'] else []) ++ bytesOf (Nat.toDigits 10 n)) number := by
  cases negative with
  | false =>
      have hnumber : number = (n : Int) := hsigned
      rw [hnumber, IsInteger, toList_toString_natCast]
      rfl
  | true =>
      obtain ⟨hpos, hnumber⟩ : 0 < n ∧ number = -(n : Int) := hsigned
      obtain ⟨m, rfl⟩ := Nat.exists_eq_succ_of_ne_zero hpos.ne'
      have hnegative : number = Int.negSucc m := by omega
      have hminus : ('-').toNat < 128 := by decide
      rw [hnegative, IsInteger, toList_toString_negSucc, bytesOf_cons_of_lt hminus]
      rfl

theorem Derives.exists_solid (hvalue : IsValue value) :
    ∃ first tail, value = first :: tail ∧ isSpace first = false := by
  cases hvalue with
  | scalar hscalar =>
      obtain ⟨first, tail, rfl, hskip⟩ := hscalar.exists_skipScalar endsNumber_nil
      exact ⟨first, tail, rfl, (not_bracket_of_skipScalar hskip).1⟩
  | empty bracket | @full bracket =>
      refine ⟨bracket.opening, _, rfl, ?_⟩
      cases bracket <;> rfl

/-- Where an integer of 64 bits with sign is read, it is the value. -/
theorem isInteger_of_readInt64 (hblank : IsBlank blank) (hvalue : IsValue value)
    (hends : EndsNumber rest) {number : Int64} {behind : List UInt8}
    (hread : readInt64 (blank ++ (value ++ rest)) = .ok (number, behind)) :
    IsInteger value number.toInt := by
  obtain rfl := endsAsSkipped_readInt64.eq_rest hblank hvalue hends hread
  obtain ⟨first, tail, rfl, hsolid⟩ := Derives.exists_solid hvalue
  rw [readInt64_append hblank] at hread
  by_cases hminus : first = ascii '-'
  · subst hminus
    rw [List.cons_append, readInt64_of_minus] at hread
    obtain ⟨n, hbytes, hsigned⟩ := exists_toDigits_of_readNumber (eq_of_narrow hread)
    rw [List.append_cancel_right hbytes]
    exact isInteger_of_signedBy hsigned
  · have hdigit : isDigit first = true := by
      by_contra hother
      rw [List.cons_append, readInt64, skipSpace_of_not_space hsolid] at hread
      dsimp only at hread
      rw [if_neg (not_or.2 ⟨hminus, hother⟩)] at hread
      cases hread
    rw [List.cons_append, readInt64_of_digit hdigit] at hread
    obtain ⟨n, hbytes, hsigned⟩ := exists_toDigits_of_readNumber (eq_of_narrow hread)
    rw [← List.cons_append] at hbytes
    rw [List.append_cancel_right hbytes]
    exact isInteger_of_signedBy hsigned

theorem readOptional_append {α : Type} {reader : List UInt8 → Reading α} (hblank : IsBlank blank)
    (bytes : List UInt8) : readOptional reader (blank ++ bytes) = readOptional reader bytes := by
  rw [readOptional, skipSpace_append hblank, readOptional]

theorem readOptional_of_isNullOr {α : Type} {Says : List UInt8 → α → Prop}
    {reader : List UInt8 → Reading α} (hblank : IsBlank blank) {meaning : Option α}
    (hvalue : IsNullOr Says value meaning)
    (hfirst : ∀ {value : List UInt8} {meaning : α}, Says value meaning →
      ∃ first tail, value = first :: tail ∧ isSpace first = false ∧ first ≠ ascii 'n')
    (hread : ∀ {value : List UInt8} {meaning : α}, Says value meaning →
      reader (value ++ rest) = .ok (meaning, rest)) :
    readOptional reader (blank ++ (value ++ rest)) = .ok (meaning, rest) := by
  rw [readOptional_append hblank]
  cases hvalue with
  | null =>
      rw [List.cons_append, readOptional, skipSpace_of_not_space rfl]
      dsimp only
      rw [if_pos rfl, expectWord_append]
      rfl
  | value hmeaning =>
      obtain ⟨first, tail, rfl, hsolid, hnull⟩ := hfirst hmeaning
      have hvalue := hread hmeaning
      rw [List.cons_append] at hvalue ⊢
      rw [readOptional_of_solid hsolid hnull, hvalue]
      rfl

end Values

/-! ## Objects -/

/-- The bytes of a member with its name and its value, up to the comma or brace behind it. -/
inductive IsMember (name : String) (value : List UInt8) : List UInt8 → Prop
  | of {before bytes between inner after : List UInt8} (hbefore : IsBlank before)
      (hname : Spells bytes name.toList) (hbetween : IsBlank between) (hinner : IsBlank inner)
      (hvalue : IsValue value) (hafter : IsBlank after) :
      IsMember name value (before ++ ascii '"' :: (bytes ++ ascii '"' :: (between ++
        ascii ':' :: (inner ++ (value ++ after)))))

/-- The bytes of one member or more, with commas between them. -/
inductive IsMembers : List (String × List UInt8) → List UInt8 → Prop
  | last {name : String} {value bytes : List UInt8} (hmember : IsMember name value bytes) :
      IsMembers [(name, value)] bytes
  | more {name : String} {value bytes others : List UInt8}
      {members : List (String × List UInt8)} (hmember : IsMember name value bytes)
      (hothers : IsMembers members others) :
      IsMembers ((name, value) :: members) (bytes ++ ascii ',' :: others)

/-- The bytes of an object with its members, whose names need not be distinct. -/
inductive IsObject : List (String × List UInt8) → List UInt8 → Prop
  | empty {blank : List UInt8} (hblank : IsBlank blank) :
      IsObject [] (ascii '\x7b' :: (blank ++ [ascii '\x7d']))
  | full {members : List (String × List UInt8)} {bytes : List UInt8}
      (hmembers : IsMembers members bytes) :
      IsObject members (ascii '\x7b' :: (bytes ++ [ascii '\x7d']))

/-- The bytes of a text with one object, and with blanks around it. -/
inductive IsObjectText (members : List (String × List UInt8)) : List UInt8 → Prop
  | of {before object after : List UInt8} (hbefore : IsBlank before)
      (hobject : IsObject members object) (hafter : IsBlank after) :
      IsObjectText members (before ++ (object ++ after))

section Members

variable {name : String} {value bytes blank behind rest : List UInt8}
  {members : List (String × List UInt8)}

theorem IsMember.isValue (hmember : IsMember name value bytes) : IsValue value := by
  cases hmember with
  | of _ _ _ _ hvalue => exact hvalue

theorem IsMember.derives (hmember : IsMember name value bytes) :
    Derives (.entry .object) bytes := by
  cases hmember with
  | of hbefore hname hbetween hinner hvalue hafter =>
      exact .member hbefore hname.isText hbetween hinner hvalue hafter

theorem IsMembers.derives (hmembers : IsMembers members bytes) :
    Derives (.entries .object) bytes := by
  induction hmembers with
  | last hmember => exact .last hmember.derives
  | more hmember _ ih => exact .more hmember.derives ih

/-- An object with its members is a value of the grammar. -/
theorem IsObject.isValue (hobject : IsObject members bytes) : IsValue bytes := by
  cases hobject with
  | empty hblank => exact .empty .object hblank
  | full hmembers => exact .full hmembers.derives

theorem readColon_append (hblank : IsBlank blank) (rest : List UInt8) :
    readColon (blank ++ ascii ':' :: rest) = .ok rest := by
  rw [readColon, skipSpace_append hblank, skipSpace_of_not_space rfl]
  exact if_pos rfl

theorem readName_append (hblank : IsBlank blank) (isFirst : Bool) (bytes : List UInt8) :
    readName isFirst (blank ++ bytes) = readName isFirst bytes := by
  rw [readName, skipSpace_append hblank, readName]

/-- In front of a name, blanks are passed over, and so is a comma unless the name is the first. -/
theorem readName_blank_quoted (hblank : IsBlank blank) (isFirst : Bool) (rest : List UInt8) :
    readName isFirst ((if isFirst then [] else [ascii ',']) ++ (blank ++ ascii '"' :: rest)) =
      readQuoted (ascii '"' :: rest) := by
  rw [← readName_quoted isFirst]
  cases isFirst with
  | true => exact readName_append hblank true _
  | false =>
      show readName false (ascii ',' :: (blank ++ ascii '"' :: rest)) =
        readName false (ascii ',' :: ascii '"' :: rest)
      rw [readName, readName, skipSpace_of_not_space rfl, skipSpace_of_not_space rfl]
      dsimp only
      rw [skipSpace_append hblank]
      rfl

/-- The name of a member is read up to its colon, behind which the value stands. -/
theorem IsMember.exists_readName (hmember : IsMember name value bytes) :
    ∃ between inner after, IsBlank between ∧ IsBlank inner ∧ IsBlank after ∧
      ∀ isFirst rest, readName isFirst ((if isFirst then [] else [ascii ',']) ++ (bytes ++ rest)) =
        .ok (some name, between ++ ascii ':' :: (inner ++ (value ++ (after ++ rest)))) := by
  cases hmember with
  | @of before bytes between inner after hbefore hname hbetween hinner _ hafter =>
      refine ⟨between, inner, after, hbetween, hinner, hafter, fun isFirst rest => ?_⟩
      simp only [List.append_assoc, List.cons_append]
      rw [readName_blank_quoted hbefore, readQuoted, if_pos rfl, readText_of_spells hname]
      rfl

end Members

/-! ## Maps -/

/-- The bytes of a map from names to texts: an object of strings, in which the last of several equal
names decides. -/
inductive IsMap : List UInt8 → Bindings → Prop
  | of {bytes : List UInt8} {members : List (String × List UInt8)}
      {entries : List (String × String)} {bindings : Bindings} (hobject : IsObject members bytes)
      (hentries : List.Forall₂ (fun member entry => member.1 = entry.1 ∧ IsString member.2 entry.2)
        members entries)
      (hlast : ∀ name, bindings.find? name = entries.reverse.lookup name) : IsMap bytes bindings

section Maps

variable {isFirst : Bool} {read : Bindings} {name text : String}
  {value bytes blank rest : List UInt8}

theorem IsMap.exists_first {bindings : Bindings} (hvalue : IsMap value bindings) :
    ∃ first tail, value = first :: tail ∧ isSpace first = false ∧ first ≠ ascii 'n' := by
  cases hvalue with
  | of hobject =>
      cases hobject with
      | empty | full => exact ⟨_, _, rfl, rfl, by decide⟩

theorem readMembers_append (hblank : IsBlank blank) :
    readMembers isFirst read (blank ++ bytes) = readMembers isFirst read bytes := by
  rw [readMembers.eq_def, readMembers.eq_def isFirst read bytes, readName_append hblank]

theorem readMembers_of_isMember (hmember : IsMember name value bytes)
    (hvalue : IsString value text) (rest : List UInt8) :
    readMembers isFirst read ((if isFirst then [] else [ascii ',']) ++ (bytes ++ rest)) =
      readMembers false (read.insert name text) rest := by
  obtain ⟨between, inner, after, hbetween, hinner, hafter, hname⟩ := hmember.exists_readName
  rw [readMembers_of_member (hname isFirst rest) (readColon_append hbetween _)
    (readString_of_isString hinner hvalue _)]
  exact readMembers_append hafter

theorem readMembers_of_isMembers {members : List (String × List UInt8)}
    {entries : List (String × String)} (hmembers : IsMembers members bytes)
    (hentries : List.Forall₂ (fun member entry => member.1 = entry.1 ∧ IsString member.2 entry.2)
      members entries) (rest : List UInt8) :
    readMembers isFirst read
        ((if isFirst then [] else [ascii ',']) ++ (bytes ++ ascii '\x7d' :: rest)) =
      .ok (entries.foldl (fun result entry => result.insert entry.1 entry.2) read, rest) := by
  induction hmembers generalizing isFirst read entries with
  | @last name value bytes hmember =>
      cases hentries with
      | @cons _ entry _ _ hentry hnone =>
          cases hnone
          have hname : name = entry.1 := hentry.1
          rw [readMembers_of_isMember hmember hentry.2, hname]
          exact readMembers_of_closing (readName_closing false rest)
  | @more name value bytes others members hmember _ ih =>
      cases hentries with
      | @cons _ entry _ _ hentry hothers =>
          have hname : name = entry.1 := hentry.1
          rw [List.append_assoc, readMembers_of_isMember hmember hentry.2, hname]
          exact ih hothers

theorem readBindings_of_isMap {bindings : Bindings} (hvalue : IsMap value bindings)
    (rest : List UInt8) : readBindings (value ++ rest) = .ok (bindings, rest) := by
  cases hvalue with
  | @of members entries _ hobject hentries hlast =>
      have hbindings : Bindings.ofList entries = bindings := by
        apply Bindings.eq_of_find?
        intro name
        rw [Bindings.find?_ofList, hlast]
      rw [← hbindings]
      cases hobject with
      | @empty blank hblank =>
          cases hentries
          rw [List.cons_append, readBindings, skipSpace_of_not_space rfl]
          dsimp only
          rw [if_pos rfl, List.append_assoc, readMembers_append hblank]
          exact readMembers_of_closing (readName_closing true rest)
      | @full _ bytes hmembers =>
          rw [List.cons_append, readBindings, skipSpace_of_not_space rfl]
          dsimp only
          rw [if_pos rfl, List.append_assoc]
          exact readMembers_of_isMembers hmembers hentries rest

end Maps

end Upkeep.Json
