/-
# Paths

A path is a text that tells, step by step, how to reach a place among the files of a host. Its
steps are separated by slashes, however many there are; a step of one dot stays where it is, and
a step of two dots goes up. A path that ends in a slash takes one more step that stays.
-/

namespace Upkeep

/-- A path. -/
structure FilePath where
  text : String
deriving DecidableEq, Repr

namespace FilePath

/-- The step that stays where it is. -/
def stay : String := "."

/-- The step that goes up. -/
def up : String := ".."

/-- The pieces of a text between its slashes. -/
def pieces : List Char → List (List Char)
  | [] => [[]]
  | c :: rest =>
    if c = '/' then [] :: pieces rest
    else
      match pieces rest with
      | [] => [[c]]
      | piece :: others => (c :: piece) :: others

/-- Whether the path begins at the root of all files. -/
def isAbsolute (path : FilePath) : Bool :=
  path.text.toList.head? == some '/'

/-- Whether the path names a place only as a directory. -/
def endsInSlash (path : FilePath) : Bool :=
  path.text.toList.getLast? == some '/'

/-- The steps of the path. -/
def steps (path : FilePath) : List String :=
  ((pieces path.text.toList).map String.ofList).filter (!·.isEmpty) ++
    if path.endsInSlash then [stay] else []

/-- The steps that do not stay where they are. -/
def names (path : FilePath) : List String :=
  path.steps.filter (· != stay)

/-- The name of the file that the path leads to, if it does not end in a step upward. -/
def fileName? (path : FilePath) : Option String :=
  path.names.getLast?.filter (· != up)

/-- A text, read from its end, without slashes and steps that stay there. -/
def bare : List Char → List Char
  | '/' :: rest => bare rest
  | '.' :: '/' :: rest => bare rest
  | other => other

/-- The bytes of the part of the path that leads to the directory of its file. -/
def directoryLength (path : FilePath) : Nat :=
  let directory := bare ((bare path.text.toList.reverse).dropWhile (· ≠ '/'))
  (String.ofList directory).utf8ByteSize

/-- The names that are left when every step upward takes the name before it back. -/
def resolved (path : FilePath) : List String :=
  (path.names.foldl (fun back name => if name = up then back.drop 1 else name :: back)
    []).reverse

end FilePath

end Upkeep
