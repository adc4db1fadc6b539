/-
# The command line

Three options override settings of the environment, and two ask for a text instead of a service.
Arguments are read from the left, and the first one that cannot be used decides. An option is
given once; its value follows it as the next argument or behind an equals sign, and behind a
short option also without one.
-/

import Upkeep.Decimal.Reader
import Upkeep.LogLevel

namespace Upkeep

/-- An option with a value. -/
inductive CommandOption where
  | port
  | logLevel
  | logFile
deriving DecidableEq, Repr

/-- What is asked for by an option without a value. -/
inductive Inquiry where
  | help
  | version
deriving DecidableEq, Repr

/-- Why a command line cannot be used. -/
inductive Misuse where
  | unexpected (argument : String)
  | missingValue (option : CommandOption)
  | invalidValue (option : CommandOption) (value : String)
  | repeated (option : CommandOption)
deriving DecidableEq, Repr

namespace CommandOption

/-- The long name of an option. -/
def longName : CommandOption → String
  | .port => "--port"
  | .logLevel => "--log-level"
  | .logFile => "--log-file"

/-- The option of a long name. -/
def ofLong? (name : String) : Option CommandOption :=
  [CommandOption.port, .logLevel, .logFile].find? fun option => option.longName = name

end CommandOption

namespace Misuse

/-- The message about a command line that cannot be used. -/
def message : Misuse → String
  | .unexpected argument => "unexpected argument '" ++ argument ++ "' found"
  | .missingValue option => "a value is required for '" ++ option.longName ++ "'"
  | .invalidValue option value =>
    "invalid value '" ++ value ++ "' for '" ++ option.longName ++ "'"
  | .repeated option => "'" ++ option.longName ++ "' cannot be used multiple times"

end Misuse

/-- The settings that a command line overrides. -/
structure Options where
  port : Option UInt16 := none
  logLevel : Option LogLevel := none
  logFile : Option String := none
deriving DecidableEq, Repr

/-- What a command line asks for. -/
inductive Invocation where
  | serve (options : Options)
  | inquire (inquiry : Inquiry)
deriving DecidableEq, Repr

namespace CommandLine

/-- What a short flag asks for. -/
def inquiry? (flag : Char) : Option Inquiry :=
  if flag = 'h' then some .help
  else if flag = 'V' then some .version
  else none

/-- What a long flag asks for. -/
def longInquiry? (name : String) : Option Inquiry :=
  if name = "--help" then some .help
  else if name = "--version" then some .version
  else none

/-- The options with one more value. -/
def assign (options : Options) (option : CommandOption) (value : String) :
    Except Misuse Options :=
  match option with
  | .port =>
    if options.port.isSome then .error (.repeated option)
    else
      match Decimal.intWithin? 0 (Int.ofNat UInt16.size) value with
      | some port => .ok { options with port := some (UInt16.ofNat port.toNat) }
      | none => .error (.invalidValue option value)
  | .logLevel =>
    if options.logLevel.isSome then .error (.repeated option)
    else
      match LogLevel.ofText? value with
      | some level => .ok { options with logLevel := some level }
      | none => .error (.invalidValue option value)
  | .logFile =>
    if options.logFile.isSome then .error (.repeated option)
    else if value.isEmpty then .error (.invalidValue option value)
    else .ok { options with logFile := some value }

/-- Whether an argument can be the value of the option in front of it: it does not look like an
option itself. -/
def canBeValue (argument : String) : Bool :=
  match argument.toList with
  | '-' :: _ :: _ => false
  | _ => true

/-- What one argument says. -/
inductive Word where
  | inquire (inquiry : Inquiry)
  /-- An option with its value in the same argument. -/
  | valued (option : CommandOption) (value : String)
  /-- An option whose value is the next argument. -/
  | awaiting (option : CommandOption)
  /-- The end of the options. -/
  | endOfOptions
  | misused

/-- What an argument that starts with two dashes says. -/
def readLong (chars : List Char) : Word :=
  let name := String.ofList (chars.takeWhile (· ≠ '='))
  match longInquiry? name, CommandOption.ofLong? name, chars.dropWhile (· ≠ '=') with
  | some inquiry, _, [] => .inquire inquiry
  | some _, _, _ :: _ => .misused
  | none, some option, [] => .awaiting option
  | none, some option, _ :: value => .valued option (String.ofList value)
  | none, none, _ => .misused

/-- What an argument that starts with one dash says: its first letter decides. -/
def readShort : List Char → Word
  | [] => .misused
  | flag :: rest =>
    if flag = 'p' then
      match rest with
      | [] => .awaiting .port
      | '=' :: value => .valued .port (String.ofList value)
      | value => .valued .port (String.ofList value)
    else
      match inquiry? flag with
      | some inquiry => .inquire inquiry
      | none => .misused

/-- What an argument says. No argument stands for itself. -/
def readWord (argument : String) : Word :=
  match argument.toList with
  | ['-', '-'] => .endOfOptions
  | '-' :: '-' :: _ => readLong argument.toList
  | '-' :: rest => readShort rest
  | _ => .misused

/-- Reads the arguments behind those that gave `options`. -/
def readOnto (options : Options) : List String → Except Misuse Invocation
  | [] => .ok (.serve options)
  | argument :: rest =>
    match readWord argument with
    | .inquire inquiry => .ok (.inquire inquiry)
    | .misused => .error (.unexpected argument)
    | .endOfOptions =>
      match rest with
      | [] => .ok (.serve options)
      | next :: _ => .error (.unexpected next)
    | .valued option value =>
      match assign options option value with
      | .ok options => readOnto options rest
      | .error misuse => .error misuse
    | .awaiting option =>
      match rest with
      | [] => .error (.missingValue option)
      | value :: further =>
        if canBeValue value then
          match assign options option value with
          | .ok options => readOnto options further
          | .error misuse => .error misuse
        else .error (.missingValue option)

/-- Reads a command line. -/
def read (arguments : List String) : Except Misuse Invocation :=
  readOnto {} arguments

end CommandLine

end Upkeep
