/-
# The program

Reads the command line and the environment, and says what the start of the service comes to.
Waiting for requests is the part of whoever embeds the service; a start without faults therefore
ends here.
-/

import Upkeep.Startup

open Upkeep

/-- The variables of the environment that hold settings. -/
def settingVariables : IO Bindings := do
  let settings : List Setting :=
    [.port, .secret, .logLevel, .logFile, .workers, .backlog, .rate, .burst, .trustProxy]
  let mut bindings : Bindings := ∅
  for setting in settings do
    match ← IO.getEnv setting.variable with
    | some value => bindings := bindings.insert setting.variable value
    | none => pure ()
  return bindings

/-- Runs the program. -/
def main (arguments : List String) : IO UInt32 := do
  let result := Startup.run {} arguments (← settingVariables)
  IO.print result.stdout
  IO.eprint result.stderr
  return UInt32.ofNat result.code
