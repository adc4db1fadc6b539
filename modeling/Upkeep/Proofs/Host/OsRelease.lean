/-
# What a description says

Of a host's description only three keys count, and of each only the last line that assigns it. So
everything that is read is told by three sequences of values, one for each key, and of these by
their ends. All that leaves the sequences as they are leaves the description as it is: other lines
between, other line ends, another order of lines with different keys, quotes around a bare value.

Which package manager a host has is then told by a table, for the first identifier that is in it.
-/

import Mathlib.Data.List.DropRight
import Mathlib.Logic.Relation
import Upkeep.Host.Distribution

namespace Upkeep

/-! ## Blanks at the ends -/

namespace Text

theorem trimList_eq (chars : List Char) : trimList chars = (dropBlank chars).rdropWhile isBlank :=
  rfl

section Blanks

variable {c : Char} {chars blank front back : List Char}

/-- Blanks in front do not matter. -/
theorem trimList_append_left (hblank : ∀ c ∈ blank, isBlank c = true) (chars : List Char) :
    trimList (blank ++ chars) = trimList chars := by
  rw [trimList_eq, dropBlank, List.dropWhile_append_of_pos hblank]
  rfl

theorem trimList_of_blank (hblank : ∀ c ∈ blank, isBlank c = true) : trimList blank = [] := by
  have hnone := trimList_append_left hblank []
  rwa [List.append_nil] at hnone

/-- Neither do blanks behind. -/
theorem trimList_append_right (hblank : ∀ c ∈ blank, isBlank c = true) (chars : List Char) :
    trimList (chars ++ blank) = trimList chars := by
  have hend : ∀ chars : List Char,
      (chars ++ blank).rdropWhile isBlank = chars.rdropWhile isBlank := by
    intro chars
    have hreverse : ∀ c ∈ blank.reverse, isBlank c = true :=
      fun c hc => hblank c (List.mem_reverse.1 hc)
    rw [List.rdropWhile, List.reverse_append, List.dropWhile_append_of_pos hreverse]
    rfl
  rw [trimList_eq, trimList_eq, dropBlank, List.dropWhile_append]
  split
  next hnone =>
    rw [← dropBlank, ← trimList_eq, trimList_of_blank hblank, dropBlank,
      List.isEmpty_iff.1 hnone]
    rfl
  next => exact hend _

/-- Nothing is dropped beyond a character that is not blank. -/
theorem trimList_append_cons (hc : isBlank c = false) :
    trimList (front ++ c :: back) = dropBlank front ++ c :: back.rdropWhile isBlank := by
  have hfront : ∀ chars others : List Char,
      dropBlank (chars ++ c :: others) = dropBlank chars ++ c :: others := by
    intro chars others
    induction chars with
    | nil => simp [dropBlank, hc]
    | cons d chars ih =>
        cases hd : isBlank d with
        | true => simpa [dropBlank, hd] using ih
        | false => simp [dropBlank, hd]
  have hreverse : (dropBlank front ++ c :: back).reverse =
      back.reverse ++ c :: (dropBlank front).reverse := by
    simp
  have hback := hfront back.reverse (dropBlank front).reverse
  rw [dropBlank] at hback
  rw [trimList_eq, hfront, List.rdropWhile, hreverse, hback]
  simp [dropBlank, List.rdropWhile]

theorem trimList_cons (hc : isBlank c = false) :
    trimList (c :: back) = c :: back.rdropWhile isBlank :=
  (trimList_append_cons hc : trimList ([] ++ c :: back) = _)

theorem trimList_dropBlank (chars : List Char) : trimList (dropBlank chars) = trimList chars := by
  rw [trimList_eq, dropBlank, dropBlank, List.dropWhile_idempotent]
  rfl

theorem trimList_rdropWhile (chars : List Char) :
    trimList (chars.rdropWhile isBlank) = trimList chars := by
  have hblank : ∀ c ∈ chars.rtakeWhile isBlank, isBlank c = true :=
    fun c hc => List.mem_rtakeWhile_imp hc
  rw [← trimList_append_right hblank, List.rdropWhile_append_rtakeWhile]

end Blanks

end Text

namespace Host.OsRelease

/-! ## Lines and keys -/

/-- The lines of a text. -/
def lines (text : String) : List (List Char) :=
  text.toList.splitOn '\n'

/-- The text of some lines. -/
def unlines (lines : List (List Char)) : String :=
  String.ofList (['\n'].intercalate lines)

/-- The keys that are read. -/
def keys : List String := ["ID", "ID_LIKE", "PRETTY_NAME"]

/-- Whether a line assigns something to a key: what stands in front of its first equals sign is the
key, but for blanks, and what stands behind is assigned. -/
def Assigns (key : String) (line raw : List Char) : Prop :=
  ∃ front, line = front ++ '=' :: raw ∧ '=' ∉ front ∧ Text.trimList front = key.toList

/-- The marks that a value may stand between. -/
def marks : List Char := ['"', '\'']

/-- Whether a value stands between two equal marks. -/
def Quoted (value : List Char) : Prop :=
  ∃ mark ∈ marks, ∃ inner, value = mark :: (inner ++ [mark])

/-- What a value says: what is between its marks, or all of it if it is bare. -/
def Says (value said : List Char) : Prop :=
  (∃ mark ∈ marks, value = mark :: (said ++ [mark])) ∨ ¬Quoted value ∧ value = said

/-- What the last line that assigns a key says, if there is one. -/
def LastSaid (key : String) (lines : List (List Char)) : Option (List Char) → Prop
  | none => ∀ line ∈ lines, ∀ raw, ¬Assigns key line raw
  | some said => ∃ before line after raw, lines = before ++ line :: after ∧
      Assigns key line raw ∧ Says (Text.trimList raw) said ∧
      ∀ other ∈ after, ∀ raw, ¬Assigns key other raw

/-- A description that holds what the last lines say. -/
structure Describes (lines : List (List Char)) (release : OsRelease) : Prop where
  id : ∃ said, LastSaid "ID" lines said ∧
    release.id = said.elim "" fun said => (String.ofList said).toLower
  like : ∃ said, LastSaid "ID_LIKE" lines said ∧
    release.like = said.elim [] fun said =>
      (blankSeparated said).map fun word => (String.ofList word).toLower
  prettyName : ∃ said, LastSaid "PRETTY_NAME" lines said ∧
    release.prettyName = said.map String.ofList

/-- A line that says nothing: it is blank, or a comment, or without an equals sign, or of a key that
is not read. -/
inductive Idle : List Char → Prop
  | blank {line : List Char} (hblank : ∀ c ∈ line, Text.isBlank c = true) : Idle line
  | comment {blank rest : List Char} (hblank : ∀ c ∈ blank, Text.isBlank c = true) :
      Idle (blank ++ '#' :: rest)
  | noEntry {line : List Char} (hsign : '=' ∉ line) : Idle line
  | otherKey {key : String} {line raw : List Char} (hassigns : Assigns key line raw)
      (hkey : key ∉ keys) : Idle line

/-- One change to the lines of a description that changes nothing of what it says. -/
inductive Edit : List (List Char) → List (List Char) → Prop
  /-- A line that says nothing is put in somewhere. -/
  | insert (before after : List (List Char)) {line : List Char} (hidle : Idle line) :
      Edit (before ++ after) (before ++ line :: after)
  /-- A line is ended by two characters instead of one. -/
  | carriageReturn (before after : List (List Char)) (line : List Char) :
      Edit (before ++ line :: after) (before ++ (line ++ ['\r']) :: after)
  /-- Two neighbours that do not assign the same key change places. -/
  | swap (before after : List (List Char)) {first second : List Char}
      (hkeys : ∀ key raw other, Assigns key first raw → ¬Assigns key second other) :
      Edit (before ++ first :: second :: after) (before ++ second :: first :: after)
  /-- A bare value is put between marks. -/
  | quote (before after : List (List Char)) {front blank value behind : List Char} {mark : Char}
      (hfront : '=' ∉ front) (hblank : ∀ c ∈ blank, Text.isBlank c = true)
      (hbehind : ∀ c ∈ behind, Text.isBlank c = true) (hvalue : Text.trimList value = value)
      (hbare : ¬Quoted value) (hmark : mark ∈ marks) :
      Edit (before ++ (front ++ '=' :: (blank ++ (value ++ behind))) :: after)
        (before ++ (front ++ '=' :: (blank ++ (mark :: (value ++ [mark]) ++ behind))) :: after)

/-! ## One line -/

section Lines

variable {key : String} {line front raw value said : List Char}

theorem isBlank_equals : Text.isBlank '=' = false := by
  decide

theorem insideMarks?_eq_some_iff {mark : Char} {inner : List Char} :
    insideMarks? mark value = some inner ↔ value = mark :: (inner ++ [mark]) := by
  cases value with
  | nil => simp [insideMarks?]
  | cons first rest =>
      rw [insideMarks?]
      constructor
      · intro hinside
        split at hinside
        next hmarks =>
          obtain ⟨rfl, hlast⟩ := hmarks
          obtain rfl := Option.some.inj hinside
          rw [List.dropLast_append_getLast? _ hlast]
        next => cases hinside
      · intro hmarks
        obtain ⟨rfl, rfl⟩ := List.cons.inj hmarks
        simp

/-- What is left of a value without its quotes is what it says. -/
theorem says_unquote (value : List Char) : Says value (unquote value) := by
  rw [unquote]
  cases hdouble : insideMarks? '"' value with
  | some inner =>
      exact .inl ⟨'"', by decide, insideMarks?_eq_some_iff.1 hdouble⟩
  | none =>
      cases hsingle : insideMarks? '\'' value with
      | some inner =>
          exact .inl ⟨'\'', by decide, insideMarks?_eq_some_iff.1 hsingle⟩
      | none =>
          refine .inr ⟨?_, rfl⟩
          rintro ⟨mark, hmark, inner, hvalue⟩
          have hinside := insideMarks?_eq_some_iff.2 hvalue
          simp only [marks, List.mem_cons, List.not_mem_nil, or_false] at hmark
          rcases hmark with rfl | rfl
          · cases hdouble.symm.trans hinside
          · cases hsingle.symm.trans hinside

/-- A value says one thing. -/
theorem Says.eq {other : List Char} (hmeans : Says value said) (hother : Says value other) :
    said = other := by
  rcases hmeans with ⟨mark, hmark, hvalue⟩ | ⟨hbare, rfl⟩
  · rcases hother with ⟨otherMark, -, hother⟩ | ⟨hbare, -⟩
    · rw [hvalue] at hother
      obtain ⟨rfl, hsame⟩ := List.cons.inj hother
      exact List.append_cancel_right hsame
    · exact absurd ⟨mark, hmark, said, hvalue⟩ hbare
  · rcases hother with ⟨mark, hmark, hvalue⟩ | ⟨-, rfl⟩
    · exact absurd ⟨mark, hmark, other, hvalue⟩ hbare
    · rfl

/-- The entry of a line with an equals sign, unless it is a comment. -/
theorem entryOf?_append (hfront : '=' ∉ front) (raw : List Char) :
    entryOf? (front ++ '=' :: raw) =
      if (Text.dropBlank front).head? = some '#' then none
      else some (String.ofList (Text.trimList front), unquote (Text.trimList raw)) := by
  have hsubset : ∀ c ∈ Text.dropBlank front, (decide (c ≠ '=')) = true := by
    intro c hc
    rw [decide_eq_true_eq]
    rintro rfl
    exact hfront ((List.dropWhile_suffix _).subset hc)
  have hkey : (Text.dropBlank front ++ '=' :: raw.rdropWhile Text.isBlank).takeWhile (· ≠ '=') =
      Text.dropBlank front := by
    rw [List.takeWhile_append_of_pos hsubset]
    simp
  have hvalue : (Text.dropBlank front ++ '=' :: raw.rdropWhile Text.isBlank).dropWhile (· ≠ '=') =
      '=' :: raw.rdropWhile Text.isBlank := by
    rw [List.dropWhile_append_of_pos hsubset]
    simp
  have hhead : (Text.dropBlank front ++ '=' :: raw.rdropWhile Text.isBlank).head? = some '#' ↔
      (Text.dropBlank front).head? = some '#' := by
    cases Text.dropBlank front <;> simp
  rw [entryOf?, Text.trimList_append_cons isBlank_equals]
  rw [hkey, hvalue, if_congr hhead rfl rfl, Text.trimList_dropBlank,
    ← Text.trimList_rdropWhile raw]

theorem entryOf?_of_no_equals (hsign : '=' ∉ line) : entryOf? line = none := by
  have hrest : (Text.trimList line).dropWhile (· ≠ '=') = [] := by
    rw [List.dropWhile_eq_nil_iff]
    intro c hc
    rw [decide_eq_true_eq]
    rintro rfl
    apply hsign
    rw [Text.trimList_eq] at hc
    exact (List.dropWhile_suffix _).subset ((List.rdropWhile_prefix _ _).subset hc)
  rw [entryOf?, hrest]
  split <;> rfl

/-- What a line says about a key. -/
def said? (key : String) (line : List Char) : Option (List Char) :=
  entryOf? line |>.bind fun entry => if entry.1 = key then some entry.2 else none

theorem said?_eq_some_iff (hkey : key ∈ keys) :
    said? key line = some said ↔ ∃ raw, Assigns key line raw ∧ Says (Text.trimList raw) said := by
  constructor
  · intro hsaid
    obtain ⟨⟨found, value⟩, hentry, hmatch⟩ := Option.bind_eq_some_iff.1 hsaid
    have hsign : '=' ∈ line := by
      by_contra hnone
      rw [entryOf?_of_no_equals hnone] at hentry
      cases hentry
    obtain ⟨front, raw, rfl, hfront⟩ := List.eq_append_cons_of_mem hsign
    rw [entryOf?_append hfront] at hentry
    split at hentry
    next => cases hentry
    next =>
      obtain ⟨rfl, rfl⟩ := Prod.mk.inj (Option.some.inj hentry)
      split at hmatch
      next hfound =>
        obtain rfl := Option.some.inj hmatch
        refine ⟨raw, ⟨front, rfl, hfront, ?_⟩, says_unquote _⟩
        rw [← hfound, String.toList_ofList]
      next => cases hmatch
  · rintro ⟨raw, ⟨front, rfl, hfront, hname⟩, hmeans⟩
    have hcomment : (Text.dropBlank front).head? ≠ some '#' := by
      intro hhead
      obtain ⟨rest, hrest⟩ := List.head?_eq_some_iff.1 hhead
      have htrim : Text.trimList front = '#' :: rest.rdropWhile Text.isBlank := by
        rw [← Text.trimList_dropBlank, hrest]
        exact Text.trimList_cons (by decide)
      have hall : ∀ key ∈ keys, key.toList.head? ≠ some '#' := by decide
      apply hall key hkey
      rw [← hname, htrim]
      rfl
    rw [said?, entryOf?_append hfront, if_neg hcomment, Option.bind_some, if_pos (by simp [hname]),
      (says_unquote _).eq hmeans]

/-- A line changes what it says something about, and nothing else. -/
theorem withLine_eq (release : OsRelease) (line : List Char) :
    release.withLine line =
      { id := (said? "ID" line).elim release.id fun said => (String.ofList said).toLower
        like := (said? "ID_LIKE" line).elim release.like fun said =>
          (blankSeparated said).map fun word => (String.ofList word).toLower
        prettyName := (said? "PRETTY_NAME" line).elim release.prettyName fun said =>
          some (String.ofList said) } := by
  rw [withLine, said?, said?, said?]
  cases entryOf? line with
  | none => rfl
  | some entry =>
      obtain ⟨key, value⟩ := entry
      dsimp only [Option.bind_some]
      rw [withEntry]
      by_cases hid : key = "ID"
      · subst hid
        rfl
      by_cases hlike : key = "ID_LIKE"
      · subst hlike
        rfl
      by_cases hname : key = "PRETTY_NAME"
      · subst hname
        rfl
      simp [hid, hlike, hname]

end Lines

/-! ## All lines -/

section Runs

variable {key : String} {said : Option (List Char)} {lines others : List (List Char)}

/-- What the lines say about a key, one after the other. -/
def allSaid (key : String) (lines : List (List Char)) : List (List Char) :=
  lines.filterMap (said? key)

@[simp] theorem allSaid_append (key : String) (before after : List (List Char)) :
    allSaid key (before ++ after) = allSaid key before ++ allSaid key after :=
  List.filterMap_append

@[simp] theorem allSaid_cons (key : String) (line : List Char) (after : List (List Char)) :
    allSaid key (line :: after) = (said? key line).toList ++ allSaid key after := by
  rw [allSaid, List.filterMap_cons]
  cases said? key line <;> rfl

theorem getLast?_allSaid_concat (key : String) (lines : List (List Char)) (line : List Char) :
    (allSaid key (lines ++ [line])).getLast? =
      (said? key line).or (allSaid key lines).getLast? := by
  rw [allSaid_append, allSaid_cons, List.getLast?_append]
  cases said? key line <;> rfl

/-- The description that some lines give. -/
def ofLines (lines : List (List Char)) : OsRelease :=
  lines.foldl withLine {}

/-- The description is told by the last thing that is said about each key. -/
theorem ofLines_eq (lines : List (List Char)) :
    ofLines lines =
      { id := (allSaid "ID" lines).getLast?.elim "" fun said => (String.ofList said).toLower
        like := (allSaid "ID_LIKE" lines).getLast?.elim [] fun said =>
          (blankSeparated said).map fun word => (String.ofList word).toLower
        prettyName := (allSaid "PRETTY_NAME" lines).getLast?.map String.ofList } := by
  induction lines using List.reverseRecOn with
  | nil => rfl
  | append_singleton lines line ih =>
      rw [ofLines, List.foldl_append, ← ofLines, ih, List.foldl_cons, List.foldl_nil, withLine_eq]
      simp only [getLast?_allSaid_concat]
      cases said? "ID" line <;> cases said? "ID_LIKE" line <;>
        cases said? "PRETTY_NAME" line <;> rfl

/-- The last thing that is said about a key is what the last line says that assigns it. -/
theorem lastSaid_iff (hkey : key ∈ keys) :
    LastSaid key lines said ↔ (allSaid key lines).getLast? = said := by
  have hnone : ∀ line, said? key line = none ↔ ∀ raw, ¬Assigns key line raw := by
    intro line
    constructor
    · intro hsaid raw hassigns
      have hsome := (said?_eq_some_iff hkey).2 ⟨raw, hassigns, says_unquote _⟩
      cases hsaid.symm.trans hsome
    · intro hno
      by_contra hsaid
      obtain ⟨value, hvalue⟩ := Option.ne_none_iff_exists'.1 hsaid
      obtain ⟨raw, hassigns, -⟩ := (said?_eq_some_iff hkey).1 hvalue
      exact hno raw hassigns
  have hsilent : ∀ after : List (List Char),
      allSaid key after = [] ↔ ∀ line ∈ after, ∀ raw, ¬Assigns key line raw := by
    intro after
    rw [allSaid, List.filterMap_eq_nil_iff]
    exact forall₂_congr fun line _ => hnone line
  cases said with
  | none => rw [List.getLast?_eq_none_iff, hsilent]; rfl
  | some said =>
      constructor
      · rintro ⟨before, line, after, raw, rfl, hassigns, hmeans, hafter⟩
        have hsaid := (said?_eq_some_iff hkey).2 ⟨raw, hassigns, hmeans⟩
        simp [hsaid, (hsilent after).2 hafter]
      · intro hlast
        induction lines using List.reverseRecOn with
        | nil => cases hlast
        | append_singleton lines line ih =>
            rw [getLast?_allSaid_concat] at hlast
            cases hsaid : said? key line with
            | some value =>
                rw [hsaid, Option.some_or] at hlast
                obtain rfl := Option.some.inj hlast
                obtain ⟨raw, hassigns, hmeans⟩ := (said?_eq_some_iff hkey).1 hsaid
                exact ⟨lines, line, [], raw, rfl, hassigns, hmeans, by simp⟩
            | none =>
                rw [hsaid, Option.none_or] at hlast
                obtain ⟨before, last, after, raw, rfl, hassigns, hmeans, hafter⟩ := ih hlast
                refine ⟨before, last, after ++ [line], raw, by simp, hassigns, hmeans, ?_⟩
                intro other hother
                rcases List.mem_append.1 hother with hmem | hmem
                · exact hafter other hmem
                · rw [List.mem_singleton.1 hmem]
                  exact (hnone line).1 hsaid

theorem describes_iff {release : OsRelease} :
    Describes lines release ↔ release = ofLines lines := by
  have hid : "ID" ∈ keys := by decide
  have hlike : "ID_LIKE" ∈ keys := by decide
  have hname : "PRETTY_NAME" ∈ keys := by decide
  rw [ofLines_eq]
  constructor
  · rintro ⟨⟨id, hsaid, hrelease⟩, ⟨like, hsaidLike, hreleaseLike⟩, name, hsaidName, hreleaseName⟩
    rw [(lastSaid_iff hid).1 hsaid, (lastSaid_iff hlike).1 hsaidLike,
      (lastSaid_iff hname).1 hsaidName, ← hrelease, ← hreleaseLike, ← hreleaseName]
  · rintro rfl
    exact ⟨⟨_, (lastSaid_iff hid).2 rfl, rfl⟩, ⟨_, (lastSaid_iff hlike).2 rfl, rfl⟩,
      ⟨_, (lastSaid_iff hname).2 rfl, rfl⟩⟩

/-! ## Changes that say the same -/

theorem Idle.said?_eq_none {line : List Char} (hidle : Idle line) (hkey : key ∈ keys) :
    said? key line = none := by
  cases hidle with
  | blank hblank =>
      have hentry : entryOf? line = none := by
        rw [entryOf?, Text.trimList_of_blank hblank]
        rfl
      rw [said?, hentry, Option.bind_none]
  | @comment blank rest hblank =>
      have hsharp : Text.trimList ('#' :: rest) = '#' :: rest.rdropWhile Text.isBlank :=
        Text.trimList_cons (by decide)
      have hentry : entryOf? (blank ++ '#' :: rest) = none := by
        rw [entryOf?, Text.trimList_append_left hblank, hsharp]
        rfl
      rw [said?, hentry, Option.bind_none]
  | noEntry hsign => rw [said?, entryOf?_of_no_equals hsign, Option.bind_none]
  | @otherKey other _ raw hassigns hother =>
      obtain ⟨front, rfl, hfront, hname⟩ := hassigns
      have hkeys : other ≠ key := by
        rintro rfl
        exact hother hkey
      rw [said?, entryOf?_append hfront, hname, String.ofList_toList]
      split
      · rfl
      · rw [Option.bind_some, if_neg hkeys]

/-- Lines that give the same entry say the same. -/
theorem said?_congr {line other : List Char} (hentry : entryOf? other = entryOf? line) :
    said? key other = said? key line := by
  rw [said?, said?, hentry]

/-- Behind an equals sign, a bare value and the same value between marks give the same entry. -/
theorem entryOf?_quote {front blank value behind : List Char} {mark : Char} (hfront : '=' ∉ front)
    (hblank : ∀ c ∈ blank, Text.isBlank c = true) (hbehind : ∀ c ∈ behind, Text.isBlank c = true)
    (hvalue : Text.trimList value = value) (hbare : ¬Quoted value) (hmark : mark ∈ marks) :
    entryOf? (front ++ '=' :: (blank ++ (mark :: (value ++ [mark]) ++ behind))) =
      entryOf? (front ++ '=' :: (blank ++ (value ++ behind))) := by
  have hsolid : Text.isBlank mark = false := by
    have hall : ∀ mark ∈ marks, Text.isBlank mark = false := by simp [marks, Text.isBlank]
    exact hall mark hmark
  have hmarked : Text.trimList (mark :: (value ++ [mark])) = mark :: (value ++ [mark]) := by
    have hends : ∀ c ∈ (mark :: (value ++ [mark])).getLast?, Text.isBlank c = false := by
      rw [← List.cons_append, List.getLast?_concat]
      rintro c ⟨⟩
      exact hsolid
    refine Text.trimList_eq_self ?_ hends
    rintro c ⟨⟩
    exact hsolid
  have hbareSaid : unquote value = value := (says_unquote value).eq (.inr ⟨hbare, rfl⟩)
  have hmarkedSaid : unquote (mark :: (value ++ [mark])) = value :=
    (says_unquote _).eq (.inl ⟨mark, hmark, rfl⟩)
  rw [entryOf?_append hfront, entryOf?_append hfront, Text.trimList_append_left hblank,
    Text.trimList_append_left hblank, Text.trimList_append_right hbehind,
    Text.trimList_append_right hbehind, hvalue, hmarked, hbareSaid, hmarkedSaid]

theorem Edit.allSaid_eq (hedit : Edit lines others) (hkey : key ∈ keys) :
    allSaid key others = allSaid key lines := by
  cases hedit with
  | insert before after hidle => simp [hidle.said?_eq_none hkey]
  | carriageReturn before after line =>
      have hentry : entryOf? (line ++ ['\r']) = entryOf? line := by
        have hblank : ∀ c ∈ ['\r'], Text.isBlank c = true := List.forall_mem_singleton.2 rfl
        rw [entryOf?, Text.trimList_append_right hblank]
        rfl
      simp [said?_congr hentry]
  | @swap before after first second hkeys =>
      have hone : said? key first = none ∨ said? key second = none := by
        by_contra hboth
        obtain ⟨hfirst, hsecond⟩ := not_or.1 hboth
        obtain ⟨said, hsaid⟩ := Option.ne_none_iff_exists'.1 hfirst
        obtain ⟨other, hother⟩ := Option.ne_none_iff_exists'.1 hsecond
        obtain ⟨raw, hassigns, -⟩ := (said?_eq_some_iff hkey).1 hsaid
        obtain ⟨otherRaw, hotherAssigns, -⟩ := (said?_eq_some_iff hkey).1 hother
        exact hkeys key raw otherRaw hassigns hotherAssigns
      rcases hone with hnone | hnone <;> simp [hnone]
  | quote before after hfront hblank hbehind hvalue hbare hmark =>
      have hentry := entryOf?_quote hfront hblank hbehind hvalue hbare hmark
      rw [allSaid_append, allSaid_append, allSaid_cons, allSaid_cons, said?_congr hentry]

/-- However many such changes are made, and in whatever direction, the description stays. -/
theorem ofLines_eq_of_edits (hedits : Relation.EqvGen Edit lines others) :
    ofLines others = ofLines lines := by
  have hsaid : ∀ key ∈ keys, allSaid key others = allSaid key lines := by
    intro key hkey
    induction hedits with
    | rel _ _ hedit => exact hedit.allSaid_eq hkey
    | refl => rfl
    | symm _ _ _ ih => exact ih.symm
    | trans _ _ _ _ _ ih ihothers => exact ihothers.trans ih
  rw [ofLines_eq, ofLines_eq, hsaid "ID" (by decide), hsaid "ID_LIKE" (by decide),
    hsaid "PRETTY_NAME" (by decide)]

end Runs

/-! ## Texts -/

theorem splitAll_eq_splitOnP (isSeparator : Char → Bool) (chars : List Char) :
    splitAll isSeparator chars = chars.splitOnP isSeparator := by
  induction chars with
  | nil => simp [splitAll]
  | cons c chars ih =>
      rw [List.splitOnP_cons_eq_if_modifyHead, splitAll, ih]
      split
      · rfl
      · obtain ⟨piece, pieces, hfirst⟩ :=
          List.exists_cons_of_ne_nil (List.splitOnP_ne_nil isSeparator chars)
        rw [hfirst]
        rfl

theorem ofText_eq (text : String) : ofText text = ofLines (lines text) := by
  rw [ofText, splitAll_eq_splitOnP]
  rfl

/-- A text of some lines is read line by line. -/
theorem ofText_unlines {lines : List (List Char)} (hlines : ∀ line ∈ lines, '\n' ∉ line) :
    ofText (unlines lines) = ofLines lines := by
  rw [ofText_eq]
  cases lines with
  | nil => rfl
  | cons line others =>
      have hsplit : OsRelease.lines (unlines (line :: others)) = line :: others := by
        rw [OsRelease.lines, unlines, String.toList_ofList]
        exact List.splitOn_intercalate '\n' hlines (List.cons_ne_nil _ _)
      rw [hsplit]

end Host.OsRelease

namespace Host

/-! ## Families -/

/-- Whether the table has a distribution. -/
def Known (id : String) : Prop :=
  ∃ manager : PackageManager, id ∈ manager.distributions

/-- The package manager of a family, on a host that may lack the newer one of Red Hat's. -/
def PackageManager.installed (family : PackageManager) (dnfInstalled : Bool) : PackageManager :=
  if family = .dnf ∧ dnfInstalled = false then .yum else family

/-- The distribution that is chosen for a description. -/
structure Chosen (release : OsRelease) (dnfInstalled : Bool) (distribution : Distribution) :
    Prop where
  id : distribution.id = if release.id = "" then "unknown" else release.id
  supported_iff : distribution.manager?.isSome = true ↔
    ∃ id ∈ release.id :: release.like, Known id
  /-- The first identifier that the table has decides. -/
  first : ∀ manager, distribution.manager? = some manager →
    ∃ before id after family, release.id :: release.like = before ++ id :: after ∧
      (∀ other ∈ before, ¬Known other) ∧ id ∈ PackageManager.distributions family ∧
      manager = family.installed dnfInstalled
  dnf : distribution.manager? = some .dnf → dnfInstalled = true
  yum : distribution.manager? = some .yum → dnfInstalled = false

namespace PackageManager

variable {id : String} {manager other : PackageManager}

/-- No distribution is in two families. -/
theorem eq_of_mem_distributions (hmanager : id ∈ manager.distributions)
    (hother : id ∈ other.distributions) : manager = other := by
  have hdisjoint : manager ≠ other → ∀ id ∈ manager.distributions, id ∉ other.distributions := by
    cases manager <;> cases other <;> decide
  by_contra hne
  exact hdisjoint hne id hmanager hother

theorem mem_of_ofDistribution? (hfound : ofDistribution? id = some manager) :
    id ∈ manager.distributions := by
  rw [ofDistribution?] at hfound
  simpa using List.find?_some hfound

theorem ofDistribution?_eq_some_iff :
    ofDistribution? id = some manager ↔ id ∈ manager.distributions := by
  refine ⟨mem_of_ofDistribution?, ?_⟩
  intro hid
  have hall : manager ∈ all := by cases manager <;> decide
  cases hfound : ofDistribution? id with
  | none =>
      have hnone := List.find?_eq_none.1 hfound manager hall
      simp [hid] at hnone
  | some found =>
      rw [eq_of_mem_distributions (mem_of_ofDistribution? hfound) hid]

theorem ofDistribution?_eq_none_iff : ofDistribution? id = none ↔ ¬Known id := by
  rw [Option.eq_none_iff_forall_ne_some, Known, not_exists]
  exact forall_congr' fun manager => not_congr ofDistribution?_eq_some_iff

theorem installed_eq_dnf {dnfInstalled : Bool} (hdnf : manager.installed dnfInstalled = .dnf) :
    dnfInstalled = true := by
  cases dnfInstalled <;> cases manager <;> simp_all [installed]

/-- The older manager of Red Hat's family has no family of its own. -/
theorem installed_eq_yum {dnfInstalled : Bool} (hid : id ∈ manager.distributions)
    (hyum : manager.installed dnfInstalled = .yum) : dnfInstalled = false := by
  cases dnfInstalled <;> cases manager <;> simp_all [installed, distributions]

end PackageManager

theorem Distribution.ofRelease_eq (release : OsRelease) (dnfInstalled : Bool) :
    ofRelease release dnfInstalled =
      let id := if release.id = "" then "unknown" else release.id
      match (release.id :: release.like).findSome? PackageManager.ofDistribution? with
      | none => .unsupported id
      | some family => .supported id (family.installed dnfInstalled) := by
  have hid : (if release.id.isEmpty then "unknown" else release.id) =
      if release.id = "" then "unknown" else release.id := by
    by_cases hempty : release.id = "" <;> simp [hempty]
  rw [ofRelease, hid]
  cases (release.id :: release.like).findSome? PackageManager.ofDistribution? with
  | none => rfl
  | some family => cases family <;> cases dnfInstalled <;> rfl

theorem chosen_ofRelease (release : OsRelease) (dnfInstalled : Bool) :
    Chosen release dnfInstalled (.ofRelease release dnfInstalled) := by
  rw [Distribution.ofRelease_eq]
  cases hfamily : (release.id :: release.like).findSome? PackageManager.ofDistribution? with
  | none =>
      have hunknown : ∀ id ∈ release.id :: release.like, ¬Known id := fun id hid =>
        PackageManager.ofDistribution?_eq_none_iff.1 (List.findSome?_eq_none_iff.1 hfamily id hid)
      constructor
      case id => rfl
      case supported_iff =>
        refine ⟨fun hsome => absurd hsome Bool.false_ne_true, ?_⟩
        rintro ⟨id, hid, hknown⟩
        exact absurd hknown (hunknown id hid)
      case first => rintro manager ⟨⟩
      all_goals rintro ⟨⟩
  | some family =>
      obtain ⟨before, id, after, hsplit, hid, hbefore⟩ := List.findSome?_eq_some_iff.1 hfamily
      have hmem := PackageManager.ofDistribution?_eq_some_iff.1 hid
      constructor
      case id => rfl
      case supported_iff =>
        refine ⟨fun _ => ⟨id, ?_, family, hmem⟩, fun _ => rfl⟩
        rw [hsplit]
        exact List.mem_append_right _ List.mem_cons_self
      case first =>
        rintro manager ⟨⟩
        exact ⟨before, id, after, family, hsplit,
          fun other hother => PackageManager.ofDistribution?_eq_none_iff.1 (hbefore other hother),
          hmem, rfl⟩
      case dnf =>
        intro hdnf
        exact PackageManager.installed_eq_dnf (Option.some.inj hdnf)
      case yum =>
        intro hyum
        exact PackageManager.installed_eq_yum hmem (Option.some.inj hyum)

/-- A text describes what the last lines with each key say, and nothing else. No changes to its
lines that say the same make a difference. Of every description, the first identifier that the
table has decides which package manager the host has. -/
theorem described_of_text (text : String) :
    (∀ release, OsRelease.Describes (OsRelease.lines text) release ↔
      release = OsRelease.ofText text) ∧
    (∀ others : List (List Char), (∀ line ∈ others, '\n' ∉ line) →
      Relation.EqvGen OsRelease.Edit (OsRelease.lines text) others →
        OsRelease.ofText (OsRelease.unlines others) = OsRelease.ofText text) ∧
    ∀ (release : OsRelease) (dnfInstalled : Bool),
      Chosen release dnfInstalled (.ofRelease release dnfInstalled) := by
  refine ⟨fun release => ?_, fun others hothers hedits => ?_, chosen_ofRelease⟩
  · rw [OsRelease.ofText_eq, OsRelease.describes_iff]
  · rw [OsRelease.ofText_unlines hothers, OsRelease.ofText_eq,
      OsRelease.ofLines_eq_of_edits hedits]

/-- With a comment in front, quotes around the value and another line end, a host is still the same,
and older than its family's newer package manager if that is missing. -/
theorem described_of_rocky :
    OsRelease.ofText (OsRelease.unlines ["# one line".toList, "ID='rocky'\r".toList]) =
        OsRelease.ofText "ID=rocky" ∧
      (Distribution.ofRelease (OsRelease.ofText "ID=rocky") false).manager? = some .yum ∧
      ∃ id ∈ ["rocky"], Known id := by
  obtain ⟨-, hedited, hchosen⟩ := described_of_text "ID=rocky"
  have hlines : OsRelease.lines "ID=rocky" = ["ID=rocky".toList] := by decide
  have hbare : ¬OsRelease.Quoted "rocky".toList := by
    rintro ⟨mark, hmark, inner, hvalue⟩
    rw [← (List.cons.inj hvalue).1] at hmark
    exact absurd hmark (by decide)
  have hfront : '=' ∉ "ID".toList := by decide
  have hblank : ∀ c ∈ ([] : List Char), Text.isBlank c = true := by simp
  have hmark : '\'' ∈ OsRelease.marks := by decide
  have hquote : OsRelease.Edit ["ID=rocky".toList] ["ID='rocky'".toList] :=
    .quote [] [] hfront hblank hblank (by decide) hbare hmark
  have hend : OsRelease.Edit ["ID='rocky'".toList] ["ID='rocky'\r".toList] :=
    .carriageReturn [] [] "ID='rocky'".toList
  have hcomment : OsRelease.Edit ["ID='rocky'\r".toList]
      ["# one line".toList, "ID='rocky'\r".toList] :=
    .insert [] ["ID='rocky'\r".toList] (.comment hblank)
  refine ⟨hedited _ (by decide) ?_, by decide +kernel, ?_⟩
  · rw [hlines]
    exact .trans _ _ _ (.rel _ _ hquote) (.trans _ _ _ (.rel _ _ hend) (.rel _ _ hcomment))
  · exact (hchosen ⟨"rocky", [], none⟩ false).supported_iff.1 (by decide)

end Host

end Upkeep
