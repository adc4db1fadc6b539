/-
# Reading and skipping end alike

A value is read where its name is one that counts and skipped where it is not, by readers that have
nothing in common. So nothing in them says that the next member is looked for at the same byte. Here
it is proved: whenever a reader accepts a value, whatever the bytes are, it leaves what is left when
the value is skipped. The converse fails, as it should, for a reader wants a value of one kind, and
a string that is skipped need not have a meaning.
-/

import Upkeep.Proofs.Json.Grammar

namespace Upkeep.Json

/-! ## Strings -/

section Texts

variable {gathered bytes rest : List UInt8}

theorem exists_isCode_of_hexEscape {code : Nat} (hread : hexEscape bytes = .ok (code, rest)) :
    ∃ digits, IsCode digits code ∧ bytes = digits ++ rest := by
  unfold hexEscape at hread
  split at hread
  next first second third fourth _ =>
    split at hread
    next hfirst hsecond hthird hfourth =>
      cases hread
      exact ⟨[first, second, third, fourth], .of hfirst hsecond hthird hfourth, rfl⟩
    next => cases hread
  next => cases hread

theorem skipText_of_hexEscape {code : Nat} (hread : hexEscape bytes = .ok (code, rest)) :
    skipText (ascii '\\' :: ascii 'u' :: bytes) = skipText rest := by
  obtain ⟨digits, hdigits, rfl⟩ := exists_isCode_of_hexEscape hread
  exact skipText_code hdigits rest

theorem mem_escapeLetters_of_shortEscape? {mark byte : UInt8}
    (hescape : shortEscape? mark = some byte) : mark ∈ escapeLetters := by
  unfold shortEscape? at hescape
  iterate 8
    split at hescape
    next hmark =>
      subst hmark
      decide
  cases hescape

theorem eq_append_of_expectWord {word : List UInt8} (hread : expectWord word bytes = .ok rest) :
    bytes = word ++ rest := by
  induction word generalizing bytes with
  | nil =>
      cases hread
      rfl
  | cons letter word ih =>
      cases bytes with
      | nil => cases hread
      | cons byte bytes =>
          rw [expectWord] at hread
          split at hread
          next hletter => rw [hletter, ih hread, List.cons_append]
          next => cases hread

/-- An escape is passed as it is read; of a pair of surrogates, one after the other. -/
theorem skipText_of_readEscape {c : Char} (hread : readEscape bytes = .ok (c, rest)) :
    skipText (ascii '\\' :: bytes) = skipText rest := by
  revert hread
  fun_cases readEscape bytes with
  | case1 | case2 | case3 | case4 | case5 | case7 | case10 =>
      intro hread
      cases hread
  | case6 _ _ _ hhigh _ _ _ hword _ _ hlow _ =>
      intro hread
      obtain ⟨-, rfl⟩ := Prod.mk.inj (Except.ok.inj hread)
      rw [skipText_of_hexEscape hhigh, eq_append_of_expectWord hword]
      exact skipText_of_hexEscape hlow
  | case8 _ _ _ hcode =>
      intro hread
      obtain ⟨-, rfl⟩ := Prod.mk.inj (Except.ok.inj hread)
      exact skipText_of_hexEscape hcode
  | case9 _ _ _ _ hescape =>
      intro hread
      cases hread
      exact skipText_letter (mem_escapeLetters_of_shortEscape? hescape) rest

theorem skipText_of_gatherText {result : List UInt8}
    (hread : gatherText gathered bytes = .ok (result, rest)) : skipText bytes = .ok rest := by
  fun_induction gatherText gathered bytes with
  | case1 => cases hread
  | case2 =>
      cases hread
      exact skipText_quote rest
  | case3 => cases hread
  | case4 _ _ _ _ hescape _ ih => exact (skipText_of_readEscape hescape).trans (ih hread)
  | case5 => cases hread
  | case6 _ _ _ hquote hbackslash hcontrol ih =>
      exact (skipText_plain ⟨hquote, hbackslash, hcontrol⟩ _).trans (ih hread)

theorem skipText_of_readText {text : String} (hread : readText bytes = .ok (text, rest)) :
    skipText bytes = .ok rest := by
  unfold readText at hread
  split at hread
  next => cases hread
  next hgather =>
    split at hread
    next =>
      cases hread
      exact skipText_of_gatherText hgather
    next => cases hread

end Texts

/-! ## Numbers -/

section Numbers

variable {negative : Bool} {bytes rest : List UInt8} {number : Number}

theorem gatherWhole_snd (gathered : Gathered) (bytes : List UInt8) :
    (gatherWhole gathered bytes).2 = skipDigits bytes := by
  fun_induction gatherWhole gathered bytes with
  | case1 => rfl
  | case2 _ _ _ hdigit _ _ ih => rw [ih, skipDigits, if_pos hdigit]
  | case3 _ _ _ hdigit _ _ ih => rw [ih, skipDigits, if_pos hdigit]
  | case4 _ _ _ hstop => rw [skipDigits, if_neg hstop]

theorem gatherFraction_snd (significand taken : Nat) (bytes : List UInt8) :
    (gatherFraction significand taken bytes).2.2 = skipDigits bytes := by
  fun_induction gatherFraction significand taken bytes with
  | case1 => rfl
  | case2 _ _ _ _ hdigit _ _ ih => rw [ih, skipDigits, if_pos hdigit]
  | case3 _ _ _ _ hdigit => rw [skipDigits, if_pos hdigit]
  | case4 _ _ _ _ hstop => rw [skipDigits, if_neg hstop]

theorem gatherExponent_snd (value : Nat) (bytes : List UInt8) :
    (gatherExponent value bytes).2 = skipDigits bytes := by
  fun_induction gatherExponent value bytes with
  | case1 => rfl
  | case2 _ _ _ hdigit _ _ ih => rw [ih, skipDigits, if_pos hdigit]
  | case3 _ _ _ hdigit => rw [skipDigits, if_pos hdigit]
  | case4 _ _ _ hstop => rw [skipDigits, if_neg hstop]

/-- Both take the same signs away. -/
theorem skipExponent_of_unsigned {lowering : Bool} {digit : UInt8} {behind : List UInt8}
    (hsign : (match bytes with
      | [] => (false, [])
      | sign :: rest =>
        if sign = ascii '+' then (false, rest)
        else if sign = ascii '-' then (true, rest)
        else (false, sign :: rest)) = (lowering, digit :: behind))
    (hdigit : isDigit digit = true) : skipExponent bytes = .ok (skipDigits behind) := by
  cases bytes with
  | nil => cases hsign
  | cons sign bytes =>
      dsimp only at hsign
      split at hsign
      next hplus =>
        cases hsign
        simp only [skipExponent, hplus, true_or, if_true, if_pos hdigit]
      next hplus =>
        split at hsign
        next hminus =>
          cases hsign
          simp only [skipExponent, hminus, or_true, if_true, if_pos hdigit]
        next hminus =>
          cases hsign
          simp only [skipExponent, hplus, hminus, or_false, if_false, if_pos hdigit]

theorem skipExponent_of_readExponent {significand : Nat} {power : Int}
    (hread : readExponent negative significand power bytes = .ok (number, rest)) :
    skipExponent bytes = .ok rest := by
  revert hread
  fun_cases readExponent negative significand power bytes with
  | case1 | case3 | case5 =>
      intro hread
      cases hread
  | case2 _ digit further hdigit _ behind hgather _ hsign =>
      intro hread
      have hbehind := gatherExponent_snd (digitValue digit) further
      rw [hgather] at hbehind
      rw [skipExponent_of_unsigned hsign hdigit, eq_of_assemble_map hread, ← hbehind]
  | case4 _ digit further hdigit behind hgather _ hsign =>
      intro hread
      have hbehind := gatherExponent_snd (digitValue digit) further
      rw [hgather] at hbehind
      obtain ⟨-, rfl⟩ := Prod.mk.inj (Except.ok.inj hread)
      rw [skipExponent_of_unsigned hsign hdigit, ← hbehind]

theorem skipFraction_of_readFraction {whole : Gathered}
    (hread : readFraction negative whole bytes = .ok (number, rest)) :
    skipFraction bytes = .ok rest := by
  unfold readFraction at hread
  split at hread
  next =>
    rw [eq_of_finish hread]
    rfl
  next mark behind =>
    split at hread
    next hpoint =>
      split at hread
      next => cases hread
      next digit further =>
        split at hread
        next hdigit =>
          rw [skipFraction, if_pos hpoint, if_pos hdigit]
          split at hread
          next significand taken left hgather =>
            have hleft : left = skipDigits further := by
              have hskip := gatherFraction_snd whole.significand 0 (digit :: further)
              rwa [hgather, skipDigits, if_pos hdigit] at hskip
            rw [← hleft]
            dsimp only at hread
            split at hread
            next => rw [eq_of_assemble_map hread]
            next mark last =>
              show (if mark = ascii 'e' ∨ mark = ascii 'E' then skipExponent last
                else .ok (mark :: last)) = _
              split at hread
              next hmark =>
                rw [if_pos hmark]
                exact skipExponent_of_readExponent hread
              next hmark => rw [if_neg hmark, eq_of_assemble_map hread]
        next => cases hread
    next hpoint =>
      rw [skipFraction.eq_def]
      dsimp only
      rw [if_neg hpoint]
      split at hread
      next hmark =>
        rw [if_pos hmark]
        exact skipExponent_of_readExponent hread
      next hmark => rw [if_neg hmark, eq_of_finish hread]

theorem skipNumber_of_readNumber (hread : readNumber negative bytes = .ok (number, rest)) :
    skipNumber bytes = .ok rest := by
  unfold readNumber at hread
  split at hread
  next => cases hread
  next digit behind =>
    split at hread
    next hzero =>
      split at hread
      next =>
        rw [skipNumber, if_pos hzero]
        exact skipFraction_of_readFraction hread
      next next behind =>
        split at hread
        next => cases hread
        next hdigit =>
          rw [skipNumber, if_pos hzero, if_neg hdigit]
          exact skipFraction_of_readFraction hread
    next hzero =>
      split at hread
      next hdigit =>
        rw [skipNumber.eq_def]
        dsimp only
        rw [if_neg hzero, if_pos hdigit, ← gatherWhole_snd ⟨digitValue digit, 0⟩]
        exact skipFraction_of_readFraction hread
      next => cases hread

end Numbers

/-! ## Values -/

/-- Wherever a value stands, a reader that accepts it leaves what is left when it is skipped. -/
def EndsAsSkipped {α : Type} (reader : List UInt8 → Reading α) : Prop :=
  ∀ {bytes rest : List UInt8} {value : α}, reader bytes = .ok (value, rest) →
    ∀ outer, skipWithin .value outer bytes = goOn outer rest

/-- Such a reader, where it succeeds, ends where the grammar says that the value ends. -/
theorem EndsAsSkipped.eq_rest {α : Type} {reader : List UInt8 → Reading α} {found : α}
    {blank value rest behind : List UInt8} (hreader : EndsAsSkipped reader)
    (hblank : IsBlank blank) (hvalue : IsValue value) (hends : EndsNumber rest)
    (hread : reader (blank ++ (value ++ rest)) = .ok (found, behind)) : behind = rest := by
  have hskip : skipValue (blank ++ (value ++ rest)) = .ok behind := hreader hread []
  rw [skipValue_append hblank hvalue hends] at hskip
  exact (Except.ok.inj hskip).symm

theorem endsAsSkipped_readString : EndsAsSkipped readString := by
  intro bytes rest text hread outer
  unfold readString at hread
  split at hread
  next => cases hread
  next byte behind hspace =>
    split at hread
    next hquote =>
      subst hquote
      apply skipWithin_scalar hspace
      rw [skipScalar, if_pos rfl, skipText_of_readText hread]
    next => cases hread

theorem endsAsSkipped_readInt64 : EndsAsSkipped readInt64 := by
  intro bytes rest value hread outer
  unfold readInt64 at hread
  split at hread
  next => cases hread
  next byte behind hspace =>
    split at hread
    next hstart =>
      apply skipWithin_scalar hspace
      split at hread
      next => cases hread
      next number further hnumber =>
        have hrest : further = rest := by
          cases hvalue : toInt64 number with
          | error fault =>
              rw [hvalue] at hread
              cases hread
          | ok found =>
              rw [hvalue] at hread
              exact (Prod.mk.inj (Except.ok.inj hread)).2
        rw [← hrest]
        have hskip := skipNumber_of_readNumber hnumber
        by_cases hminus : byte = ascii '-'
        · rw [if_pos hminus] at hskip
          rw [hminus, skipScalar_minus, hskip]
        · rw [if_neg hminus] at hskip
          rw [skipScalar_digit (hstart.resolve_left hminus), hskip]
    next => cases hread

theorem endsAsSkipped_readOptional {α : Type} {reader : List UInt8 → Reading α}
    (hreader : EndsAsSkipped reader) : EndsAsSkipped (readOptional reader) := by
  intro bytes rest value hread outer
  unfold readOptional at hread
  split at hread
  next => cases hread
  next byte behind hspace =>
    split at hread
    next hnull =>
      subst hnull
      apply skipWithin_scalar hspace
      show expectWord nullTail behind = _
      cases hword : expectWord nullTail behind with
      | error fault =>
          rw [hword] at hread
          cases hread
      | ok further =>
          rw [hword] at hread
          rw [(Prod.mk.inj (Except.ok.inj hread)).2]
    next =>
      obtain ⟨found, hfound, -⟩ := exists_of_mapValue hread
      rw [← hreader hfound outer, ← hspace]
      exact skipWithin_of_skipSpace_eq (skipSpace_skipSpace bytes).symm

/-! ## Maps -/

section Members

variable {isFirst : Bool} {bytes behind rest : List UInt8} {name : Option String}

/-- What may stand next behind the opening brace or behind a member. -/
def Place.ofMember (isFirst : Bool) : Place :=
  if isFirst then .opened else .closed

theorem skipSpace_of_readColon (hcolon : readColon bytes = .ok rest) :
    skipSpace bytes = ascii ':' :: rest := by
  unfold readColon at hcolon
  split at hcolon
  next => cases hcolon
  next byte further hspace =>
    split at hcolon
    next hmark =>
      cases hcolon
      rw [hspace, hmark]
    next => cases hcolon

theorem skipName_of_readQuoted (hname : readQuoted (skipSpace bytes) = .ok (name, behind))
    (hcolon : readColon behind = .ok rest) : skipName bytes = .ok rest := by
  unfold readQuoted at hname
  split at hname
  next => cases hname
  next byte further hspace =>
    split at hname
    next hquote =>
      obtain ⟨text, htext, -⟩ := exists_of_mapValue hname
      rw [skipName, hspace]
      dsimp only
      rw [if_pos hquote, skipText_of_readText htext]
      dsimp only
      rw [skipSpace_of_readColon hcolon]
      exact if_pos rfl
    next => cases hname

theorem skipWithin_of_end (hname : readName isFirst bytes = .ok (none, rest))
    (outer : List Bracket) :
    skipWithin (.ofMember isFirst) (.object :: outer) bytes = goOn outer rest := by
  have hquoted : ∀ {bytes : List UInt8}, readQuoted bytes ≠ .ok (none, rest) := by
    intro bytes hquoted
    unfold readQuoted at hquoted
    split at hquoted
    next => cases hquoted
    next =>
      split at hquoted
      next =>
        obtain ⟨text, -, htext⟩ := exists_of_mapValue hquoted
        cases htext
      next => cases hquoted
  unfold readName at hname
  split at hname
  next => cases hname
  next byte behind hspace =>
    split at hname
    next hclosing =>
      subst hclosing
      cases hname
      cases isFirst with
      | true => exact skipWithin_opened_closing hspace
      | false => exact skipWithin_closed_closing hspace
    next =>
      split at hname
      next => exact absurd hname hquoted
      next =>
        split at hname
        next => exact absurd hname hquoted
        next => cases hname

theorem skipWithin_of_name {text : String}
    (hname : readName isFirst bytes = .ok (some text, behind))
    (hcolon : readColon behind = .ok rest) (outer : List Bracket) :
    skipWithin (.ofMember isFirst) (.object :: outer) bytes =
      skipWithin .value (.object :: outer) rest := by
  have hentry : ∀ {bytes : List UInt8}, skipName bytes = .ok rest →
      skipEntry .object outer bytes = skipWithin .value (.object :: outer) rest := by
    intro bytes hskip
    rw [skipEntry, hskip]
  unfold readName at hname
  split at hname
  next => cases hname
  next byte further hspace =>
    split at hname
    next => cases hname
    next hclosing =>
      have hother : byte ≠ Bracket.object.closing := hclosing
      split at hname
      next hfirst =>
        subst hfirst
        rw [← hspace] at hname
        exact (skipWithin_opened_entry hspace hother).trans
          (hentry (skipName_of_readQuoted hname hcolon))
      next hfirst =>
        split at hname
        next hcomma =>
          subst hcomma
          rw [Bool.eq_false_iff.2 hfirst]
          exact (skipWithin_closed_comma hspace).trans
            (hentry (skipName_of_readQuoted hname hcolon))
        next => cases hname

theorem skipWithin_of_readMembers {read result : Bindings} (outer : List Bracket)
    (hread : readMembers isFirst read bytes = .ok (result, rest)) :
    skipWithin (.ofMember isFirst) (.object :: outer) bytes = goOn outer rest := by
  fun_induction readMembers isFirst read bytes with
  | case1 => cases hread
  | case2 _ _ _ _ hname =>
      cases hread
      exact skipWithin_of_end hname outer
  | case3 => cases hread
  | case4 => cases hread
  | case5 _ _ bytes _ _ hname _ hcolon _ _ hvalue ih =>
      calc
        skipWithin (.ofMember _) (.object :: outer) bytes
          = skipWithin .value (.object :: outer) _ := skipWithin_of_name hname hcolon outer
        _ = skipWithin .closed (.object :: outer) _ := endsAsSkipped_readString hvalue _
        _ = goOn outer rest := ih hread

end Members

theorem endsAsSkipped_readBindings : EndsAsSkipped readBindings := by
  intro bytes rest result hread outer
  unfold readBindings at hread
  split at hread
  next => cases hread
  next byte behind hspace =>
    split at hread
    next hopening =>
      rw [hopening] at hspace
      have hobject : skipSpace bytes = Bracket.object.opening :: behind := hspace
      exact (skipWithin_opening hobject).trans
        (skipWithin_of_readMembers outer hread)
    next => cases hread

end Upkeep.Json
