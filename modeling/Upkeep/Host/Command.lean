/-
# Commands

A command is a program with its arguments and the variables that are set for it. It is built up
step by step; variables that the plan of an action has set are kept when the caller's are added.
-/

import Upkeep.Bindings

namespace Upkeep.Host

/-- A program to be run. -/
structure Command where
  program : String
  args : List String := []
  env : Bindings := ∅
deriving DecidableEq

namespace Command

/-- The command with further arguments. -/
def withArgs (command : Command) (args : List String) : Command :=
  { command with args := command.args ++ args }

/-- The command with the variables of an environment, except those that it has already. -/
def withEnv (command : Command) (env : Bindings) : Command :=
  { command with env := command.env.complete env }

/-- The command with a variable set. -/
def withVariable (command : Command) (name value : String) : Command :=
  { command with env := command.env.insert name value }

/-- How a command is shown: its words with spaces between them. -/
def describe (command : Command) : String :=
  String.intercalate " " (command.program :: command.args)

/-- The program and its arguments. -/
def words (command : Command) : List String :=
  command.program :: command.args

end Command

end Upkeep.Host
