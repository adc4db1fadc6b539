/-
# Running commands

What can go wrong on a host, and what becomes of a list of commands: they are run in order, each
when the one before it has exited with status zero, and the first that does not ends the run
with its error.

A program is looked up by its name among those that can be found, unless its name is a path.
-/

import Upkeep.FileTree
import Upkeep.Host.Plan
import Upkeep.Text.Quoted
import Upkeep.Text.Utf8

namespace Upkeep.Host

/-- What can go wrong on a host. -/
inductive HostError where
  /-- No package manager is known for the distribution. -/
  | unsupportedDistribution (id : String)
  /-- The description of the system could not be read. -/
  | unreadableRelease (path reason : String)
  /-- A command could not be started. -/
  | notStarted (command reason : String)
  /-- A command exited with another status than zero, or with none, by a signal. -/
  | commandFailed (command : String) (status : Option Int) (stderr : String)
  /-- A command was stopped because it was no longer wanted. -/
  | cancelled (command : String)
deriving DecidableEq, Repr

/-- How the exit status of a command is shown. -/
def statusText : Option Int → String
  | none => "None"
  | some status => "Some(" ++ toString status ++ ")"

/-- The message about something that went wrong on a host. -/
def HostError.message : HostError → String
  | .unsupportedDistribution id => "unsupported distribution: " ++ id
  | .unreadableRelease path reason => "failed to read " ++ path ++ ": " ++ reason
  | .notStarted command reason => "failed to start `" ++ command ++ "`: " ++ reason
  | .commandFailed command status stderr =>
    "command failed: " ++ command ++ " (exit status " ++ statusText status ++ ")\nstderr: " ++
      stderr
  | .cancelled command => "command cancelled: " ++ command

/-- How an attempt to run a command ends. -/
inductive Ending where
  /-- It was started and exited with a status, or by a signal without one, having written these
  bytes to its error output. -/
  | exited (status : Option Int) (stderr : List UInt8)
  /-- It could not be started. -/
  | notStarted (reason : String)
  /-- It was started and then stopped. -/
  | cancelled
  /-- It was no longer wanted before it was started. -/
  | withdrawn
deriving DecidableEq

namespace Ending

/-- Whether the command was started at all. -/
def wasStarted : Ending → Bool
  | .notStarted _ | .withdrawn => false
  | .exited .. | .cancelled => true

/-- What an attempt means for the run. The error output is read leniently, without blanks at
its ends. -/
def result (command : Command) : Ending → Except HostError Unit
  | .exited (some 0) _ => .ok ()
  | .exited status stderr =>
    .error (.commandFailed command.describe status (Text.trim (Text.Utf8.decodeLenient stderr)))
  | .notStarted reason => .error (.notStarted command.describe reason)
  | .cancelled | .withdrawn => .error (.cancelled command.describe)

end Ending

/-- Runs commands in order up to the first that does not succeed. `attempt` tells how the n-th
attempt, counted from `n`, ends. Gives the commands that were started, and the outcome. -/
def runAll (attempt : Nat → Command → Ending) (n : Nat) :
    List Command → List Command × Except HostError Unit
  | [] => ([], .ok ())
  | command :: rest =>
    let ending := attempt n command
    let started := if ending.wasStarted then [command] else []
    match ending.result command with
    | .error error => (started, .error error)
    | .ok () =>
      let (later, outcome) := runAll attempt (n + 1) rest
      (started ++ later, outcome)

/-- How the programs of a host end, for a host whose programs follow a script. -/
structure Scripted where
  /-- The programs that can be found. -/
  programs : List String
  /-- How the programs that are started end, in order. Past the end of the list they succeed. -/
  endings : List Ending
  files : FileTree := .usual

/-- Why a command with a zero byte in one of its texts cannot be started. -/
def zeroByteReason : String := "nul byte found in provided data"

/-- Why a command with a text that is too long for a program cannot be started. -/
def overlongReason : String := "Argument list too long (os error 7)"

/-- The most bytes that a word of a command may have, and a variable with its name. -/
def maxWordLength : Nat := 131071

/-- The variable that tells where programs are looked up. -/
def searchVariable : String := "PATH"

namespace Command

/-- The texts that a program is started with. -/
def texts (command : Command) : List String :=
  command.words ++ command.env.entries.map fun (name, value) => name ++ "=" ++ value

/-- Whether a command has a zero byte in one of its texts. -/
def hasZeroByte (command : Command) : Bool :=
  command.texts.any fun text => text.toList.any (· == '\x00')

/-- Whether one of the texts of a command is too long. -/
def isOverlong (command : Command) : Bool :=
  command.texts.any fun text => maxWordLength < text.utf8ByteSize

end Command

namespace Scripted

/-- Why the program of a command is not found, if it is not. A command that says where to look
for programs says so in vain. -/
def lookupFault? (host : Scripted) (command : Command) : Option PathFault :=
  let program := command.program
  if program.isEmpty then some .notFound
  else if program.toList.contains '/' then some (host.files.runFault [] ⟨program⟩)
  else if FileTree.maxNameLength < program.utf8ByteSize then some .tooLong
  else if program = FilePath.stay ∨ program = FilePath.up then some .denied
  else if (command.env.find? searchVariable).isSome then some .notFound
  else if program ∈ host.programs then none
  else some .notFound

/-- How the n-th attempt on a scripted host ends. -/
def attempt (host : Scripted) (n : Nat) (command : Command) : Ending :=
  if command.hasZeroByte then .notStarted zeroByteReason
  else
    match host.lookupFault? command with
    | some fault => .notStarted fault.message
    | none =>
      if command.isOverlong then .notStarted overlongReason
      else (host.endings[n]?).getD (.exited (some 0) [])

end Scripted

end Upkeep.Host
