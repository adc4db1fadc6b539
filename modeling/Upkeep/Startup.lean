/-
# Starting the service

The service starts in steps: it reads its settings, opens its log, makes its queue of tasks and
its workers, and takes its port. The first step that fails ends it, with a report of what was to
be done and what stood in the way unless the program broke down over it. The host is known by
its files and by the ports that are taken. Log files are begun anew every day, and bear the day
in their names.
-/

import Upkeep.CommandLine
import Upkeep.Config
import Upkeep.FileTree

namespace Upkeep

/-- Why the log could not be opened. -/
inductive LogError where
  | noFileName (path : String)
  | noDirectory (fault : PathFault)
  | noFile (fault : PathFault)
deriving DecidableEq, Repr

/-- The causes of a failed log, from the nearest to the deepest. -/
def LogError.causes : LogError → List String
  | .noFileName path => ["log file path " ++ path ++ " has no file name"]
  | .noDirectory fault => ["failed to create log directory: " ++ fault.message, fault.message]
  | .noFile fault => ["failed to create log file: " ++ fault.message, fault.message]

/-- Why the service did not start. -/
inductive StartupError where
  | configuration (error : ConfigError)
  | log (error : LogError)
  /-- No queue has room for so many tasks. -/
  | queueTooLong
  /-- No list has room for so many workers. -/
  | tooManyWorkers
  | portTaken (port : UInt16)
deriving DecidableEq, Repr

/-- Why a port cannot be had. -/
def portTakenReason : String := "Address already in use (os error 98)"

namespace StartupError

/-- What was to be done when the start failed. -/
def occasion : StartupError → String
  | .configuration _ => "invalid configuration"
  | .log _ => "failed to initialize logging"
  | .queueTooLong | .tooManyWorkers => "failed to start workers"
  | .portTaken port => "failed to bind 0.0.0.0:" ++ toString port.toNat

/-- What stood in the way, from the nearest cause to the deepest. -/
def causes : StartupError → List String
  | .configuration error => [error.message]
  | .log error => error.causes
  | .queueTooLong => ["the queue of tasks is too long"]
  | .tooManyWorkers => ["there are too many workers"]
  | .portTaken _ => [portTakenReason]

/-- Whether the start broke down before it could report why. -/
def isBreakdown : StartupError → Bool
  | .log (.noFile _) => true
  | .queueTooLong | .tooManyWorkers => true
  | _ => false

/-- The exit code of the program. -/
def exitCode (error : StartupError) : Nat :=
  if error.isBreakdown then 101 else 1

/-- A text with some blanks in front of each of its further lines. -/
def hanging (blanks : Nat) (text : String) : String :=
  String.ofList (text.toList.flatMap fun c =>
    if c = '\n' then '\n' :: List.replicate blanks ' ' else [c])

/-- The lines of a report that list the causes; several ones are numbered. -/
def causeLines : List String → String
  | [cause] => "    " ++ hanging 4 cause ++ "\n"
  | causes =>
    String.join (causes.zipIdx.map fun (cause, n) =>
      "    " ++ toString n ++ ": " ++ hanging 7 cause ++ "\n")

/-- The report of a failed start. A breakdown leaves none. -/
def report (error : StartupError) : String :=
  if error.isBreakdown then ""
  else "Error: " ++ error.occasion ++ "\n\nCaused by:\n" ++ causeLines error.causes

end StartupError

/-- What the start of the service finds on its host. -/
structure Grounds where
  files : FileTree := .usual
  /-- The place from which paths that do not begin at the root are followed. -/
  here : List String := []
  takenPorts : List UInt16 := []

namespace Startup

/-- The bytes of a day behind the name of a log file: a dot, year, month and day. -/
def dayLength : Nat := 11

/-- Why no log file can be begun for a path in its directory, if it cannot. -/
def fileFault? (files : FileTree) (path : FilePath) (name : String) (directory : List String) :
    Option PathFault :=
  if FileTree.maxNameLength < name.utf8ByteSize + dayLength then some .tooLong
  else if FileTree.maxPathLength <
      max path.directoryLength 1 + 1 + name.utf8ByteSize + dayLength then
    some .tooLong
  else files.makeFault? directory

/-- Opens the log of a configuration; gives the path of the log file, if there is one. -/
def openLog (grounds : Grounds) (config : Config) : Except LogError (Option String) := do
  match config.logFile with
  | none => return none
  | some text =>
    let path : FilePath := ⟨text⟩
    match path.fileName? with
    | none => throw (.noFileName text)
    | some name =>
      let directory ← (grounds.files.makeDirectory grounds.here path).mapError .noDirectory
      match fileFault? grounds.files path name directory with
      | some fault => throw (.noFile fault)
      | none => return some text

/-- The configuration with the settings that the command line overrides. -/
def override (config : Config) (options : Options) : Config :=
  { config with
    port := options.port.getD config.port
    logLevel := options.logLevel.getD config.logLevel
    logFile := options.logFile.or config.logFile }

/-- What came of a start. -/
structure Started where
  /-- The log file, if one was opened. -/
  logFile : Option String
  outcome : Except StartupError Config

/-- Starts the service with the options of a command line and the variables of its
environment. The queue and the list of workers are bounded by what can be addressed; up to these
bounds memory is taken to be unlimited. -/
def start (grounds : Grounds) (options : Options) (environment : Bindings) : Started :=
  match Config.ofVariables environment with
  | .error error => ⟨none, .error (.configuration error)⟩
  | .ok config =>
    let config := override config options
    match openLog grounds config with
    | .error error => ⟨none, .error (.log error)⟩
    | .ok logFile =>
      if Pool.maxCapacity < config.backlog then ⟨logFile, .error .queueTooLong⟩
      else if Pool.maxWorkers < config.workers then ⟨logFile, .error .tooManyWorkers⟩
      else if config.port ∈ grounds.takenPorts then
        ⟨logFile, .error (.portTaken config.port)⟩
      else ⟨logFile, .ok config⟩

/-- The name under which the program answers. -/
def programName : String := "cloud-update"

/-- The version of the program. -/
def version : String := "0.1.0"

/-- The line that tells the version. -/
def versionLine : String := programName ++ " " ++ version ++ "\n"

/-- What the program says about its use. -/
def usage : String :=
  "Usage: " ++ programName ++ " [--port <PORT>] [--log-level <LEVEL>] [--log-file <FILE>]\n"

/-- What a run of the program leaves: its exit code, its texts, and its log file. -/
structure Result where
  code : Nat
  stdout : String := ""
  stderr : String := ""
  logFile : Option String := none

/-- Runs the program up to the point where it would wait for requests. -/
def run (grounds : Grounds) (arguments : List String) (environment : Bindings) : Result :=
  match CommandLine.read arguments with
  | .error misuse => { code := 2, stderr := "error: " ++ misuse.message ++ "\n\n" ++ usage }
  | .ok (.inquire .version) => { code := 0, stdout := versionLine }
  | .ok (.inquire .help) => { code := 0, stdout := usage }
  | .ok (.serve options) =>
    let started := start grounds options environment
    match started.outcome with
    | .error error =>
      { code := error.exitCode, stderr := error.report, logFile := started.logFile }
    | .ok _ => { code := 0, logFile := started.logFile }

end Startup

end Upkeep
