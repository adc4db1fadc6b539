/-
# Log levels

How much the service writes to its log. Its own messages appear from the chosen level on; those
of the libraries it rests on are never more talkative than the level for information.
-/

import Upkeep.Text.Blank

namespace Upkeep

/-- The least severity that is logged. -/
inductive LogLevel where
  | debug
  | info
  | warn
  | error
deriving DecidableEq, Repr

namespace LogLevel

/-- The word for a level. -/
def word : LogLevel → String
  | .debug => "debug"
  | .info => "info"
  | .warn => "warn"
  | .error => "error"

/-- How a level is shown among settings. -/
def shown : LogLevel → String
  | .debug => "Debug"
  | .info => "Info"
  | .warn => "Warn"
  | .error => "Error"

/-- The level that a text names. Blanks around it and letter case do not matter. -/
def ofText? (text : String) : Option LogLevel :=
  match (Text.trim text).toLower with
  | "debug" => some .debug
  | "info" => some .info
  | "warn" | "warning" => some .warn
  | "error" => some .error
  | _ => none

/-- The filter that a level stands for. -/
def directive (level : LogLevel) : String :=
  let others :=
    match level with
    | .debug | .info => LogLevel.info.word
    | level => level.word
  others ++ ",cloud_update=" ++ level.word

end LogLevel

end Upkeep
