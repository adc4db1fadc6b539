/-
# The operating system's own description

A host describes its system in lines of the form `KEY=value`. Three keys matter here: the
identifier of the distribution, the identifiers of those it is like, and its name for people.
Blank lines, comments, lines without an equals sign and other keys are passed over, and of
several lines with one key the last counts. A value may stand in one pair of quotes.
-/

import Upkeep.Text.Blank

namespace Upkeep.Host

/-- What a host says about its distribution. -/
structure OsRelease where
  /-- The identifier in lowercase; empty if none is given. -/
  id : String := ""
  /-- The identifiers of similar distributions in lowercase. -/
  like : List String := []
  prettyName : Option String := none
deriving DecidableEq, Repr

namespace OsRelease

/-- Where a host keeps its description. -/
def standardPath : String := "/etc/os-release"

/-- The pieces of a text between the places where a separator stands. -/
def splitAll (isSeparator : Char → Bool) : List Char → List (List Char)
  | [] => [[]]
  | c :: rest =>
    if isSeparator c then [] :: splitAll isSeparator rest
    else
      match splitAll isSeparator rest with
      | [] => [[c]]
      | piece :: pieces => (c :: piece) :: pieces

/-- The nonempty words of a text. -/
def blankSeparated (chars : List Char) : List (List Char) :=
  (splitAll Text.isBlank chars).filter fun word => !word.isEmpty

/-- The inside of a value between two equal marks. -/
def insideMarks? (mark : Char) (value : List Char) : Option (List Char) :=
  match value with
  | [] => none
  | first :: rest =>
    if first = mark ∧ rest.getLast? = some mark then some rest.dropLast else none

/-- A value without the pair of quotes around it. -/
def unquote (value : List Char) : List Char :=
  ((insideMarks? '"' value).or (insideMarks? '\'' value)).getD value

/-- The key and the value that a line gives: the parts before and after its first equals sign. -/
def entryOf? (line : List Char) : Option (String × List Char) :=
  let trimmed := Text.trimList line
  if trimmed.head? = some '#' then none
  else
    match trimmed.dropWhile (· ≠ '=') with
    | [] => none
    | _ :: value =>
      some (String.ofList (Text.trimList (trimmed.takeWhile (· ≠ '='))),
        unquote (Text.trimList value))

/-- The description after one more entry. -/
def withEntry (release : OsRelease) (key : String) (value : List Char) : OsRelease :=
  if key = "ID" then { release with id := (String.ofList value).toLower }
  else if key = "ID_LIKE" then
    { release with like := (blankSeparated value).map fun word => (String.ofList word).toLower }
  else if key = "PRETTY_NAME" then { release with prettyName := some (String.ofList value) }
  else release

/-- The description after one more line. -/
def withLine (release : OsRelease) (line : List Char) : OsRelease :=
  match entryOf? line with
  | none => release
  | some (key, value) => release.withEntry key value

/-- Reads a description. -/
def ofText (text : String) : OsRelease :=
  (splitAll (· == '\n') text.toList).foldl withLine {}

end OsRelease

end Upkeep.Host
