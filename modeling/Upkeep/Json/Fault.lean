/-
# What can be wrong with a JSON text

Reading runs from the left and stops at the first fault. A text can end too early, break the
grammar, or hold a well-formed value of the wrong shape; the last kind is told apart by cause.
-/

import Upkeep.Text.Quoted

namespace Upkeep.Json

/-- A value that stood where another kind was expected, as far as a message shows it. -/
inductive Found where
  | null
  | boolean (value : Bool)
  | integer (value : Int)
  | float (decimal : String)
  | text (value : String)
  | list
  | object
deriving DecidableEq, Repr

/-- How a well-formed value fails to have the shape that was asked for. -/
inductive Mismatch where
  | missingField (name : String)
  | duplicateField (name : String)
  | wrongType (found : Found) (expected : String)
  | outOfRange (value : Int) (expected : String)
  | wrongLength (length : Nat) (expected : String)
  | unknownVariant (name : String) (known : List String)
deriving DecidableEq, Repr

/-- Why a text could not be read. -/
inductive Fault where
  /-- The text breaks the grammar. -/
  | malformed
  /-- The text ends before the value does. -/
  | truncated
  /-- The text holds a value of the wrong shape. -/
  | mismatch (cause : Mismatch)
deriving DecidableEq, Repr

/-- How a message names a value. -/
def Found.describe : Found → String
  | .null => "null"
  | .boolean true => "boolean `true`"
  | .boolean false => "boolean `false`"
  | .integer value => "integer `" ++ toString value ++ "`"
  | .float decimal => "floating point `" ++ decimal ++ "`"
  | .text value => "string " ++ Text.quoted value
  | .list => "sequence"
  | .object => "map"

/-- The message about a value of the wrong shape. -/
def Mismatch.message : Mismatch → String
  | .missingField name => "missing field `" ++ name ++ "`"
  | .duplicateField name => "duplicate field `" ++ name ++ "`"
  | .wrongType found expected =>
    "invalid type: " ++ found.describe ++ ", expected " ++ expected
  | .outOfRange value expected =>
    "invalid value: " ++ (Found.integer value).describe ++ ", expected " ++ expected
  | .wrongLength length expected =>
    "invalid length " ++ toString length ++ ", expected " ++ expected
  | .unknownVariant name known =>
    "unknown variant `" ++ name ++ "`, expected one of " ++
      String.intercalate ", " (known.map fun word => "`" ++ word ++ "`")

end Upkeep.Json
