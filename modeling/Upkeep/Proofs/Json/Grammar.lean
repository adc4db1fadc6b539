/-
# The grammar of values

What is a value is said here without a word about reading: words, numbers, strings, and lists and
objects with blanks around everything. Of a string only the form counts. Its escapes need not
stand for characters, and its bytes need not be characters, for nobody wants to know what it says.

A reader that skips a value has to stop where the grammar says that the value ends. It keeps the
brackets that are open in place of a stack of calls, so the statement that is proved along the
grammar speaks of any brackets outside (`Passes`). Numbers are the only values that do not show
their end themselves, so something must follow that does not go on with them.
-/

import Upkeep.Proofs.Json.Shape

namespace Upkeep.Json

/-! ## Blanks -/

/-- Nothing but blanks. -/
def IsBlank (bytes : List UInt8) : Prop :=
  ∀ byte ∈ bytes, isSpace byte = true

section Blanks

variable {blank bytes : List UInt8}

theorem skipSpace_append (hblank : IsBlank blank) (bytes : List UInt8) :
    skipSpace (blank ++ bytes) = skipSpace bytes := by
  induction blank with
  | nil => rfl
  | cons byte blank ih =>
      rw [List.cons_append, skipSpace, if_pos (hblank byte List.mem_cons_self)]
      exact ih fun other hother => hblank other (List.mem_cons_of_mem _ hother)

/-- Behind blanks nothing is left to skip. -/
theorem isSpace_of_skipSpace {byte : UInt8} {rest : List UInt8}
    (hspace : skipSpace bytes = byte :: rest) : isSpace byte = false := by
  induction bytes with
  | nil => cases hspace
  | cons first bytes ih =>
      rw [skipSpace] at hspace
      split at hspace
      · exact ih hspace
      next hsolid =>
        cases hspace
        simpa using hsolid

theorem skipSpace_skipSpace (bytes : List UInt8) :
    skipSpace (skipSpace bytes) = skipSpace bytes := by
  cases hspace : skipSpace bytes with
  | nil => rfl
  | cons byte rest => rw [skipSpace, isSpace_of_skipSpace hspace]; rfl

/-- No number goes on with what may follow behind blanks. -/
theorem EndsNumber.append_blank (hblank : IsBlank blank) (hends : EndsNumber bytes) :
    EndsNumber (blank ++ bytes) := by
  cases blank with
  | nil => exact hends
  | cons byte blank =>
      rintro _ ⟨⟩
      have hspace := hblank byte List.mem_cons_self
      simp only [isSpace, Bool.or_eq_true, beq_iff_eq] at hspace
      rcases hspace with ((rfl | rfl) | rfl) | rfl <;> decide

end Blanks

/-! ## Strings -/

/-- The letters of escapes. -/
def escapeLetters : List UInt8 :=
  [ascii '"', ascii '\\', ascii '/', ascii 'b', ascii 'f', ascii 'n', ascii 'r', ascii 't']

/-- Four hexadecimal digits of either case, with their number. -/
inductive IsCode : List UInt8 → Nat → Prop
  | of {first second third fourth : UInt8} {a b c d : Nat}
      (hfirst : Text.Hex.value? first.toNat = some a)
      (hsecond : Text.Hex.value? second.toNat = some b)
      (hthird : Text.Hex.value? third.toNat = some c)
      (hfourth : Text.Hex.value? fourth.toNat = some d) :
      IsCode [first, second, third, fourth] (((a * 16 + b) * 16 + c) * 16 + d)

theorem hexEscape_append {digits : List UInt8} {code : Nat} (hdigits : IsCode digits code)
    (rest : List UInt8) : hexEscape (digits ++ rest) = .ok (code, rest) := by
  cases hdigits with
  | of hfirst hsecond hthird hfourth =>
      simp only [List.cons_append, List.nil_append, hexEscape, hfirst, hsecond, hthird, hfourth]

/-- What may stand between the quotes of a string. -/
inductive IsText : List UInt8 → Prop
  | nil : IsText []
  | plain {byte : UInt8} {bytes : List UInt8} (hplain : IsPlain byte) (hrest : IsText bytes) :
      IsText (byte :: bytes)
  | letter {letter : UInt8} {bytes : List UInt8} (hletter : letter ∈ escapeLetters)
      (hrest : IsText bytes) : IsText (ascii '\\' :: letter :: bytes)
  | code {digits bytes : List UInt8} {code : Nat} (hdigits : IsCode digits code)
      (hrest : IsText bytes) : IsText (ascii '\\' :: ascii 'u' :: (digits ++ bytes))

section Texts

variable {byte letter : UInt8}

theorem skipText_quote (rest : List UInt8) : skipText (ascii '"' :: rest) = .ok rest := by
  rw [skipText.eq_def]
  dsimp only
  rw [if_pos rfl]

theorem skipText_plain (hplain : IsPlain byte) (rest : List UInt8) :
    skipText (byte :: rest) = skipText rest := by
  rw [skipText.eq_def]
  dsimp only
  rw [if_neg hplain.not_quote, if_neg hplain.not_backslash, if_neg hplain.not_control]

theorem skipText_letter (hletter : letter ∈ escapeLetters) (rest : List UInt8) :
    skipText (ascii '\\' :: letter :: rest) = skipText rest := by
  have hcode : letter ≠ ascii 'u' := by
    rintro rfl
    exact absurd hletter (by decide)
  rw [skipText.eq_def]
  dsimp only
  rw [if_neg (by decide), if_pos rfl, if_neg hcode]
  exact if_pos hletter

theorem skipText_code {digits : List UInt8} {code : Nat} (hdigits : IsCode digits code)
    (rest : List UInt8) :
    skipText (ascii '\\' :: ascii 'u' :: (digits ++ rest)) = skipText rest := by
  have hcode := hexEscape_append hdigits []
  rw [List.append_nil] at hcode
  cases hdigits with
  | of =>
      rw [skipText.eq_def]
      dsimp only [List.cons_append, List.nil_append]
      rw [if_neg (by decide), if_pos rfl, if_pos rfl, hcode]

end Texts

/-- A string is passed up to its closing quote. -/
theorem skipText_of_isText {bytes : List UInt8} (htext : IsText bytes) (rest : List UInt8) :
    skipText (bytes ++ ascii '"' :: rest) = .ok rest := by
  induction htext with
  | nil => exact skipText_quote rest
  | plain hplain _ ih => exact (skipText_plain hplain _).trans ih
  | letter hletter _ ih => exact (skipText_letter hletter _).trans ih
  | @code digits bytes code hdigits _ ih =>
      rw [List.cons_append, List.cons_append, List.append_assoc, skipText_code hdigits]
      exact ih

/-! ## Numbers -/

/-- Nothing but digits. -/
def IsDigits (bytes : List UInt8) : Prop :=
  ∀ byte ∈ bytes, isDigit byte = true

/-- The whole part of a number has no leading zeros. -/
inductive IsWhole : List UInt8 → Prop
  | zero : IsWhole [ascii '0']
  | digits {first : UInt8} {bytes : List UInt8} (hfirst : isDigit first = true)
      (hnonzero : first ≠ ascii '0') (hbytes : IsDigits bytes) : IsWhole (first :: bytes)

/-- A point with digits behind it, or nothing. -/
inductive IsFraction : List UInt8 → Prop
  | none : IsFraction []
  | point {first : UInt8} {bytes : List UInt8} (hfirst : isDigit first = true)
      (hbytes : IsDigits bytes) : IsFraction (ascii '.' :: first :: bytes)

/-- A power of ten, perhaps with a sign, or nothing. -/
inductive IsExponent : List UInt8 → Prop
  | none : IsExponent []
  | power {mark first : UInt8} {sign bytes : List UInt8}
      (hmark : mark = ascii 'e' ∨ mark = ascii 'E')
      (hsign : sign ∈ [[], [ascii '+'], [ascii '-']]) (hfirst : isDigit first = true)
      (hbytes : IsDigits bytes) : IsExponent (mark :: (sign ++ first :: bytes))

/-- A number. -/
inductive IsNumber : List UInt8 → Prop
  | of {sign whole fraction exponent : List UInt8} (hsign : sign ∈ [[], [ascii '-']])
      (hwhole : IsWhole whole) (hfraction : IsFraction fraction)
      (hexponent : IsExponent exponent) :
      IsNumber (sign ++ (whole ++ (fraction ++ exponent)))

section Numbers

variable {bytes exponent fraction whole rest : List UInt8} {byte first : UInt8}

theorem skipDigits_of_not_digit (hstop : ∀ byte ∈ rest.head?, isDigit byte = false) :
    skipDigits rest = rest := by
  cases rest with
  | nil => rfl
  | cons byte rest => rw [skipDigits, if_neg (Bool.eq_false_iff.1 (hstop byte rfl))]

theorem skipDigits_append (hdigits : IsDigits bytes) (rest : List UInt8) :
    skipDigits (bytes ++ rest) = skipDigits rest := by
  induction bytes with
  | nil => rfl
  | cons byte bytes ih =>
      rw [List.cons_append, skipDigits, if_pos (hdigits byte List.mem_cons_self)]
      exact ih fun other hother => hdigits other (List.mem_cons_of_mem _ hother)

/-- Behind its sign, an exponent is passed with all its digits. -/
theorem skipExponent_append {sign : List UInt8} (hsign : sign ∈ [[], [ascii '+'], [ascii '-']])
    (hfirst : isDigit first = true) (hbytes : IsDigits bytes)
    (hstop : ∀ byte ∈ rest.head?, isDigit byte = false) :
    skipExponent (sign ++ first :: (bytes ++ rest)) = .ok rest := by
  have hdigits : skipDigits (bytes ++ rest) = rest := by
    rw [skipDigits_append hbytes, skipDigits_of_not_digit hstop]
  have hmark : ¬(first = ascii '+' ∨ first = ascii '-') := by
    rintro (rfl | rfl) <;> exact absurd hfirst (by decide)
  simp only [List.mem_cons, List.not_mem_nil, or_false] at hsign
  rcases hsign with rfl | rfl | rfl
  · simp only [List.nil_append, skipExponent, if_neg hmark, if_pos hfirst, hdigits]
  · simp only [List.cons_append, List.nil_append, skipExponent, true_or, if_true, if_pos hfirst,
      hdigits]
  · simp only [List.cons_append, List.nil_append, skipExponent, or_true, if_true, if_pos hfirst,
      hdigits]

theorem skipFraction_of_endsNumber (hends : EndsNumber rest) : skipFraction rest = .ok rest := by
  cases rest with
  | nil => rfl
  | cons byte rest =>
      obtain ⟨-, hpoint, hsmall, hlarge⟩ := hends byte rfl
      rw [skipFraction.eq_def]
      dsimp only
      rw [if_neg hpoint, if_neg (not_or.2 ⟨hsmall, hlarge⟩)]

/-- No digit stands where an exponent begins, nor where a number has ended. -/
theorem not_digit_of_isExponent (hexponent : IsExponent exponent) (hends : EndsNumber rest) :
    ∀ byte ∈ (exponent ++ rest).head?, isDigit byte = false := by
  cases hexponent with
  | none => exact fun byte hbyte => (hends byte hbyte).1
  | power hmark =>
      rintro byte ⟨⟩
      rcases hmark with rfl | rfl <;> decide

theorem skipFraction_exponent (hexponent : IsExponent exponent) (hends : EndsNumber rest) :
    skipFraction (exponent ++ rest) = .ok rest := by
  cases hexponent with
  | none => exact skipFraction_of_endsNumber hends
  | @power mark first sign bytes hmark hsign hfirst hbytes =>
      have hpoint : mark ≠ ascii '.' := by rcases hmark with rfl | rfl <;> decide
      rw [List.cons_append, List.append_assoc, List.cons_append, skipFraction.eq_def]
      dsimp only
      rw [if_neg hpoint, if_pos hmark]
      exact skipExponent_append hsign hfirst hbytes fun byte hbyte => (hends byte hbyte).1

/-- Once the digits of a fraction are passed, at most an exponent is left. -/
theorem skipFraction_point (hfirst : isDigit first = true) (hbytes : IsDigits bytes)
    (hstop : ∀ byte ∈ rest.head?, isDigit byte = false) (hpoint : ascii '.' ∉ rest.head?) :
    skipFraction (ascii '.' :: first :: (bytes ++ rest)) = skipFraction rest := by
  rw [skipFraction, if_pos rfl, if_pos hfirst, skipDigits_append hbytes,
    skipDigits_of_not_digit hstop]
  cases rest with
  | nil => rfl
  | cons mark rest =>
      have hmark : mark ≠ ascii '.' := by
        rintro rfl
        exact hpoint rfl
      rw [skipFraction.eq_def (mark :: rest)]
      dsimp only
      rw [if_neg hmark]

theorem skipFraction_append (hfraction : IsFraction fraction) (hexponent : IsExponent exponent)
    (hends : EndsNumber rest) : skipFraction (fraction ++ (exponent ++ rest)) = .ok rest := by
  cases hfraction with
  | none => exact skipFraction_exponent hexponent hends
  | point hfirst hbytes =>
      have hpoint : ascii '.' ∉ (exponent ++ rest).head? := by
        cases hexponent with
        | none => exact fun hpoint => (hends _ hpoint).2.1 rfl
        | power hmark =>
            rintro ⟨⟩
            exact absurd hmark (by decide)
      have hstop := not_digit_of_isExponent hexponent hends
      exact (skipFraction_point hfirst hbytes hstop hpoint).trans
        (skipFraction_exponent hexponent hends)

/-- No digit stands behind a whole part. -/
theorem not_digit_of_isFraction (hfraction : IsFraction fraction) (hexponent : IsExponent exponent)
    (hends : EndsNumber rest) :
    ∀ byte ∈ (fraction ++ (exponent ++ rest)).head?, isDigit byte = false := by
  cases hfraction with
  | none =>
      have hstop := not_digit_of_isExponent hexponent hends
      exact hstop
  | point =>
      rintro byte ⟨⟩
      decide

/-- Behind its sign, a number is passed to its end. -/
theorem skipNumber_append (hwhole : IsWhole whole) (hfraction : IsFraction fraction)
    (hexponent : IsExponent exponent) (hends : EndsNumber rest) :
    skipNumber (whole ++ (fraction ++ (exponent ++ rest))) = .ok rest := by
  have hstop := not_digit_of_isFraction hfraction hexponent hends
  have hskip := skipFraction_append hfraction hexponent hends
  generalize fraction ++ (exponent ++ rest) = behind at hstop hskip
  rw [← hskip]
  cases hwhole with
  | zero =>
      cases behind with
      | nil => rfl
      | cons byte behind =>
          show (if isDigit byte = true then _ else _) = _
          rw [if_neg (Bool.eq_false_iff.1 (hstop byte rfl))]
  | digits hfirst hnonzero hbytes =>
      rw [List.cons_append, skipNumber.eq_def]
      dsimp only
      rw [if_neg hnonzero, if_pos hfirst, skipDigits_append hbytes, skipDigits_of_not_digit hstop]

end Numbers

/-! ## Brackets -/

/-- The byte that opens a bracket. -/
def Bracket.opening : Bracket → UInt8
  | .list => ascii '['
  | .object => ascii '\x7b'

theorem Bracket.skipSpace_opening (bracket : Bracket) (rest : List UInt8) :
    skipSpace (bracket.opening :: rest) = bracket.opening :: rest := by
  cases bracket <;> exact skipSpace_of_not_space rfl rest

theorem Bracket.skipSpace_closing (bracket : Bracket) (rest : List UInt8) :
    skipSpace (bracket.closing :: rest) = bracket.closing :: rest := by
  cases bracket <;> exact skipSpace_of_not_space rfl rest

theorem Bracket.opening_ne_closing (bracket other : Bracket) : bracket.opening ≠ other.closing := by
  cases bracket <;> cases other <;> decide

theorem Bracket.endsNumber_closing (bracket : Bracket) (rest : List UInt8) :
    EndsNumber (bracket.closing :: rest) := by
  rintro _ ⟨⟩
  cases bracket <;> decide

theorem endsNumber_comma (rest : List UInt8) : EndsNumber (ascii ',' :: rest) := by
  rintro _ ⟨⟩
  decide

section Scalars

variable {first : UInt8} {tail bytes rest : List UInt8}

/-- Words, numbers and strings begin with none of the other tokens. -/
theorem not_bracket_of_skipScalar (hskip : skipScalar first tail = .ok rest) :
    isSpace first = false ∧ ∀ bracket : Bracket,
      first ≠ bracket.opening ∧ first ≠ bracket.closing := by
  refine ⟨?_, fun bracket => ⟨?_, ?_⟩⟩
  · apply Bool.eq_false_iff.2
    intro hspace
    simp only [isSpace, Bool.or_eq_true, beq_iff_eq] at hspace
    rcases hspace with ((rfl | rfl) | rfl) | rfl <;> cases hskip
  · rintro rfl
    cases bracket <;> cases hskip
  · rintro rfl
    cases bracket <;> cases hskip

/-- The words of the grammar. -/
def words : List (List UInt8) :=
  [ascii 'n' :: nullTail, ascii 't' :: trueTail, ascii 'f' :: falseTail]

/-- A value without brackets. -/
inductive IsScalar : List UInt8 → Prop
  | word {word : List UInt8} (hword : word ∈ words) : IsScalar word
  | number {bytes : List UInt8} (hnumber : IsNumber bytes) : IsScalar bytes
  | text {bytes : List UInt8} (htext : IsText bytes) :
      IsScalar (ascii '"' :: (bytes ++ [ascii '"']))

theorem expectWord_append (word rest : List UInt8) : expectWord word (word ++ rest) = .ok rest := by
  induction word with
  | nil => rfl
  | cons letter word ih => rw [List.cons_append, expectWord, if_pos rfl, ih]

theorem exists_skipScalar_of_word (hword : bytes ∈ words) (rest : List UInt8) :
    ∃ first tail, bytes = first :: tail ∧ skipScalar first (tail ++ rest) = .ok rest := by
  simp only [words, List.mem_cons, List.not_mem_nil, or_false] at hword
  rcases hword with rfl | rfl | rfl <;> exact ⟨_, _, rfl, expectWord_append _ rest⟩

theorem skipScalar_minus (tail : List UInt8) : skipScalar (ascii '-') tail = skipNumber tail := by
  rw [skipScalar, if_neg (by decide), if_pos rfl]

theorem skipScalar_digit (hdigit : isDigit first = true) (tail : List UInt8) :
    skipScalar first tail = skipNumber (first :: tail) := by
  have hquote : first ≠ ascii '"' := by
    rintro rfl
    exact absurd hdigit (by decide)
  have hminus : first ≠ ascii '-' := by
    rintro rfl
    exact absurd hdigit (by decide)
  rw [skipScalar, if_neg hquote, if_neg hminus, if_pos hdigit]

theorem IsWhole.exists_digit {whole : List UInt8} (hwhole : IsWhole whole) :
    ∃ first tail, whole = first :: tail ∧ isDigit first = true := by
  cases hwhole with
  | zero => exact ⟨ascii '0', [], rfl, rfl⟩
  | digits hfirst => exact ⟨_, _, rfl, hfirst⟩

theorem exists_skipScalar_of_isNumber (hnumber : IsNumber bytes) (hends : EndsNumber rest) :
    ∃ first tail, bytes = first :: tail ∧ skipScalar first (tail ++ rest) = .ok rest := by
  cases hnumber with
  | @of sign whole fraction exponent hsign hwhole hfraction hexponent =>
      have hskip := skipNumber_append hwhole hfraction hexponent hends
      simp only [List.mem_cons, List.not_mem_nil, or_false] at hsign
      rcases hsign with rfl | rfl
      · obtain ⟨first, tail, rfl, hdigit⟩ := hwhole.exists_digit
        refine ⟨first, tail ++ (fraction ++ exponent), rfl, ?_⟩
        rw [skipScalar_digit hdigit, ← hskip, List.append_assoc, List.append_assoc]
        rfl
      · refine ⟨ascii '-', whole ++ (fraction ++ exponent), rfl, ?_⟩
        rw [skipScalar_minus, ← hskip, List.append_assoc, List.append_assoc]

theorem IsScalar.exists_skipScalar (hscalar : IsScalar bytes) (hends : EndsNumber rest) :
    ∃ first tail, bytes = first :: tail ∧ skipScalar first (tail ++ rest) = .ok rest := by
  cases hscalar with
  | word hword => exact exists_skipScalar_of_word hword rest
  | number hnumber => exact exists_skipScalar_of_isNumber hnumber hends
  | @text bytes htext =>
      refine ⟨ascii '"', bytes ++ [ascii '"'], rfl, ?_⟩
      rw [skipScalar, if_pos rfl, List.append_assoc]
      exact skipText_of_isText htext rest

end Scalars

section Places

variable {place : Place} {outer : List Bracket} {bracket : Bracket} {byte : UInt8}
  {bytes behind rest : List UInt8}

/-- What is left to pass behind an entry or a value, inside the brackets outside of it. -/
def goOn (outer : List Bracket) (rest : List UInt8) : Except Fault (List UInt8) :=
  if outer.isEmpty then .ok rest else skipWithin .closed outer rest

/-- Passes an entry of a bracket, and what follows it inside. -/
def skipEntry (bracket : Bracket) (outer : List Bracket) (bytes : List UInt8) :
    Except Fault (List UInt8) :=
  match bracket with
  | .list => skipWithin .value (.list :: outer) bytes
  | .object =>
    match skipName bytes with
    | .error fault => .error fault
    | .ok behind => skipWithin .value (.object :: outer) behind

/-- Blanks in front do not matter. -/
theorem skipWithin_of_skipSpace_eq {other : List UInt8}
    (hspace : skipSpace bytes = skipSpace other) :
    skipWithin place outer bytes = skipWithin place outer other := by
  rw [skipWithin.eq_def place outer bytes, skipWithin.eq_def place outer other, hspace]

theorem skipWithin_opening (hspace : skipSpace bytes = bracket.opening :: rest) :
    skipWithin .value outer bytes = skipWithin .opened (bracket :: outer) rest := by
  rw [skipWithin.eq_def, hspace]
  cases bracket <;> rfl

theorem skipWithin_scalar (hspace : skipSpace bytes = byte :: behind)
    (hscalar : skipScalar byte behind = .ok rest) :
    skipWithin .value outer bytes = goOn outer rest := by
  obtain ⟨-, hbracket⟩ := not_bracket_of_skipScalar hscalar
  have hlist : byte ≠ ascii '[' := (hbracket .list).1
  have hobject : byte ≠ ascii '\x7b' := (hbracket .object).1
  rw [skipWithin.eq_def, hspace]
  dsimp only
  rw [if_neg hlist, if_neg hobject, hscalar]
  rfl

theorem skipWithin_opened_closing (hspace : skipSpace bytes = bracket.closing :: rest) :
    skipWithin .opened (bracket :: outer) bytes = goOn outer rest := by
  rw [skipWithin.eq_def, hspace]
  exact if_pos rfl

theorem skipWithin_closed_closing (hspace : skipSpace bytes = bracket.closing :: rest) :
    skipWithin .closed (bracket :: outer) bytes = goOn outer rest := by
  rw [skipWithin.eq_def, hspace]
  exact if_pos rfl

theorem skipWithin_closed_comma (hspace : skipSpace bytes = ascii ',' :: rest) :
    skipWithin .closed (bracket :: outer) bytes = skipEntry bracket outer rest := by
  have hclosing : ascii ',' ≠ bracket.closing := by cases bracket <;> decide
  rw [skipWithin.eq_def, hspace]
  dsimp only
  rw [if_neg hclosing, if_pos rfl]
  cases bracket with
  | list => rfl
  | object =>
      dsimp only [skipEntry]
      split
      next hname => rw [hname]
      next hname => rw [hname]

theorem skipName_skipSpace (bytes : List UInt8) : skipName (skipSpace bytes) = skipName bytes := by
  rw [skipName, skipName, skipSpace_skipSpace]

theorem skipWithin_opened_entry (hspace : skipSpace bytes = byte :: rest)
    (hclosing : byte ≠ bracket.closing) :
    skipWithin .opened (bracket :: outer) bytes = skipEntry bracket outer bytes := by
  rw [skipWithin.eq_def, hspace]
  dsimp only
  rw [if_neg hclosing, ← hspace]
  cases bracket with
  | list => exact skipWithin_of_skipSpace_eq (skipSpace_skipSpace bytes)
  | object =>
      dsimp only [skipEntry]
      rw [skipName_skipSpace]
      split
      next hname => rw [hname]
      next hname => rw [hname]

/-- Of a member, the name is passed with its colon. -/
theorem skipName_append {before name between : List UInt8} (hbefore : IsBlank before)
    (hname : IsText name) (hbetween : IsBlank between) (rest : List UInt8) :
    skipName (before ++ ascii '"' :: (name ++ ascii '"' :: (between ++ ascii ':' :: rest))) =
      .ok rest := by
  have hquote : skipSpace (before ++ ascii '"' ::
      (name ++ ascii '"' :: (between ++ ascii ':' :: rest))) =
        ascii '"' :: (name ++ ascii '"' :: (between ++ ascii ':' :: rest)) :=
    skipSpace_append hbefore _
  have hcolon : skipSpace (between ++ ascii ':' :: rest) = ascii ':' :: rest :=
    skipSpace_append hbetween _
  rw [skipName, hquote]
  dsimp only
  rw [if_pos rfl, skipText_of_isText hname]
  dsimp only
  rw [hcolon]
  exact if_pos rfl

end Places

/-! ## Values -/

/-- What the grammar tells apart: values, an entry of a bracket, and one entry or more with commas
between them. -/
inductive Category where
  | value
  | entry (bracket : Bracket)
  | entries (bracket : Bracket)

/-- The grammar. Lists and objects may hold further ones to any depth. -/
inductive Derives : Category → List UInt8 → Prop
  | scalar {bytes : List UInt8} (hscalar : IsScalar bytes) : Derives .value bytes
  | empty (bracket : Bracket) {blank : List UInt8} (hblank : IsBlank blank) :
      Derives .value (bracket.opening :: (blank ++ [bracket.closing]))
  | full {bracket : Bracket} {bytes : List UInt8} (hentries : Derives (.entries bracket) bytes) :
      Derives .value (bracket.opening :: (bytes ++ [bracket.closing]))
  | element {before value after : List UInt8} (hbefore : IsBlank before)
      (hvalue : Derives .value value) (hafter : IsBlank after) :
      Derives (.entry .list) (before ++ (value ++ after))
  | member {before name between inner value after : List UInt8} (hbefore : IsBlank before)
      (hname : IsText name) (hbetween : IsBlank between) (hinner : IsBlank inner)
      (hvalue : Derives .value value) (hafter : IsBlank after) :
      Derives (.entry .object) (before ++ ascii '"' :: (name ++ ascii '"' :: (between ++
        ascii ':' :: (inner ++ (value ++ after)))))
  | last {bracket : Bracket} {bytes : List UInt8} (hentry : Derives (.entry bracket) bytes) :
      Derives (.entries bracket) bytes
  | more {bracket : Bracket} {bytes others : List UInt8} (hentry : Derives (.entry bracket) bytes)
      (hothers : Derives (.entries bracket) others) :
      Derives (.entries bracket) (bytes ++ ascii ',' :: others)

/-- The bytes of a value. -/
abbrev IsValue : List UInt8 → Prop :=
  Derives .value

/-- Whatever brackets are open, the bytes are passed to their end, and to no byte beyond it. -/
def Passes : Category → List UInt8 → Prop
  | .value, bytes => ∀ outer rest, EndsNumber rest →
      skipWithin .value outer (bytes ++ rest) = goOn outer rest
  | .entry bracket, bytes | .entries bracket, bytes => ∀ outer rest, EndsNumber rest →
      skipEntry bracket outer (bytes ++ rest) = skipWithin .closed (bracket :: outer) rest

section Derivations

variable {category : Category} {bytes rest : List UInt8}

theorem endsNumber_nil : EndsNumber [] :=
  fun _ hbyte => absurd hbyte (by simp)

/-- Behind blanks, something stands that closes no bracket. -/
theorem Derives.exists_first (hderives : Derives category bytes) (rest : List UInt8) :
    ∃ first tail, skipSpace (bytes ++ rest) = first :: tail ∧
      ∀ bracket : Bracket, first ≠ bracket.closing := by
  induction hderives generalizing rest with
  | scalar hscalar =>
      obtain ⟨first, tail, rfl, hskip⟩ := hscalar.exists_skipScalar endsNumber_nil
      obtain ⟨hsolid, hbracket⟩ := not_bracket_of_skipScalar hskip
      exact ⟨first, tail ++ rest, skipSpace_of_not_space hsolid _, fun other => (hbracket other).2⟩
  | empty bracket | @full bracket _ _ _ =>
      exact ⟨_, _, bracket.skipSpace_opening _, bracket.opening_ne_closing⟩
  | element hbefore _ _ ih =>
      rw [List.append_assoc, skipSpace_append hbefore, List.append_assoc]
      exact ih _
  | member hbefore =>
      rw [List.append_assoc, skipSpace_append hbefore]
      exact ⟨_, _, rfl, fun bracket => by cases bracket <;> decide⟩
  | last _ ih => exact ih rest
  | more _ _ ih _ =>
      rw [List.append_assoc]
      exact ih _

theorem Derives.passes (hderives : Derives category bytes) : Passes category bytes := by
  induction hderives with
  | scalar hscalar =>
      intro outer rest hends
      obtain ⟨first, tail, rfl, hskip⟩ := hscalar.exists_skipScalar hends
      obtain ⟨hsolid, -⟩ := not_bracket_of_skipScalar hskip
      exact skipWithin_scalar (skipSpace_of_not_space hsolid _) hskip
  | @empty bracket blank hblank =>
      intro outer rest _
      have hclosing : skipSpace (blank ++ [bracket.closing] ++ rest) = bracket.closing :: rest := by
        rw [List.append_assoc, skipSpace_append hblank]
        exact bracket.skipSpace_closing rest
      exact (skipWithin_opening (bracket.skipSpace_opening _)).trans
        (skipWithin_opened_closing hclosing)
  | @full bracket bytes hentries ih =>
      intro outer rest _
      obtain ⟨first, tail, hspace, hfirst⟩ := hentries.exists_first (bracket.closing :: rest)
      calc
        skipWithin .value outer (bracket.opening :: (bytes ++ [bracket.closing]) ++ rest)
          = skipWithin .opened (bracket :: outer) (bytes ++ [bracket.closing] ++ rest) :=
            skipWithin_opening (bracket.skipSpace_opening _)
        _ = skipWithin .opened (bracket :: outer) (bytes ++ bracket.closing :: rest) := by
            rw [List.append_assoc]; rfl
        _ = skipEntry bracket outer (bytes ++ bracket.closing :: rest) :=
            skipWithin_opened_entry hspace (hfirst bracket)
        _ = skipWithin .closed (bracket :: outer) (bracket.closing :: rest) :=
            ih _ _ (bracket.endsNumber_closing rest)
        _ = goOn outer rest := skipWithin_closed_closing (bracket.skipSpace_closing rest)
  | @element before value after hbefore _ hafter ih =>
      intro outer rest hends
      have hspace : skipSpace (before ++ (value ++ after) ++ rest) =
          skipSpace (value ++ (after ++ rest)) := by
        rw [List.append_assoc, List.append_assoc, skipSpace_append hbefore]
      calc
        skipEntry .list outer (before ++ (value ++ after) ++ rest)
          = skipWithin .value (.list :: outer) (value ++ (after ++ rest)) :=
            skipWithin_of_skipSpace_eq hspace
        _ = skipWithin .closed (.list :: outer) (after ++ rest) :=
            ih _ _ (hends.append_blank hafter)
        _ = skipWithin .closed (.list :: outer) rest :=
            skipWithin_of_skipSpace_eq (skipSpace_append hafter rest)
  | @member before name between inner value after hbefore hname hbetween hinner _ hafter ih =>
      intro outer rest hends
      have hskip := skipName_append hbefore hname hbetween (inner ++ (value ++ (after ++ rest)))
      simp only [skipEntry, List.append_assoc, List.cons_append, hskip]
      calc
        skipWithin .value (.object :: outer) (inner ++ (value ++ (after ++ rest)))
          = skipWithin .value (.object :: outer) (value ++ (after ++ rest)) :=
            skipWithin_of_skipSpace_eq (skipSpace_append hinner _)
        _ = skipWithin .closed (.object :: outer) (after ++ rest) :=
            ih _ _ (hends.append_blank hafter)
        _ = skipWithin .closed (.object :: outer) rest :=
            skipWithin_of_skipSpace_eq (skipSpace_append hafter rest)
  | last _ ih => exact ih
  | @more bracket bytes others _ _ ih ihothers =>
      intro outer rest hends
      calc
        skipEntry bracket outer (bytes ++ ascii ',' :: others ++ rest)
          = skipEntry bracket outer (bytes ++ ascii ',' :: (others ++ rest)) := by
            rw [List.append_assoc]; rfl
        _ = skipWithin .closed (bracket :: outer) (ascii ',' :: (others ++ rest)) :=
            ih _ _ (endsNumber_comma _)
        _ = skipEntry bracket outer (others ++ rest) :=
            skipWithin_closed_comma (skipSpace_of_not_space rfl _)
        _ = skipWithin .closed (bracket :: outer) rest := ihothers _ _ hends

/-- Behind blanks, a value is passed to its end. -/
theorem skipValue_append {blank value : List UInt8} (hblank : IsBlank blank)
    (hvalue : IsValue value) (hends : EndsNumber rest) :
    skipValue (blank ++ (value ++ rest)) = .ok rest :=
  (skipWithin_of_skipSpace_eq (skipSpace_append hblank _)).trans (hvalue.passes [] rest hends)

end Derivations

end Upkeep.Json
