/-
# Carrying out a request

A request is judged before anything is run: whether it is still wanted, whether its action is
known, whether its configuration holds proxy settings only, and whether the module it names is
a plain word or, for an update, the distribution has a known package manager. What passes is a
plan; the first fault in this order refuses it.
-/

import Upkeep.Host.Run
import Upkeep.Request.Basic

namespace Upkeep

/-- Why an action was not carried out. -/
inductive ActionError where
  | unknownAction (unknown : UnknownAction)
  /-- The configuration sets a variable that a caller may not set. -/
  | invalidConfig (name : String)
  /-- The name of a setup module is no plain word. -/
  | invalidModule (name : String)
  /-- The action was no longer wanted. -/
  | cancelled
  /-- The host failed. -/
  | host (error : Host.HostError)
deriving DecidableEq, Repr

namespace ActionError

/-- The message about an action that was not carried out. -/
def message : ActionError → String
  | .unknownAction unknown => unknown.message
  | .invalidConfig name => "config key " ++ Text.quoted name ++ " is not allowed"
  | .invalidModule name => "invalid cloud-init module name " ++ Text.quoted name
  | .cancelled => "action cancelled"
  | .host error => error.message

/-- The error of an action whose run on the host failed. A command that was stopped means that
the action was no longer wanted. -/
def ofHostError : Host.HostError → ActionError
  | .cancelled _ => .cancelled
  | error => .host error

end ActionError

namespace Executor

/-- The variables that a request may set for the commands of its action. -/
def allowedVariables : List String :=
  ["HTTP_PROXY", "HTTPS_PROXY", "FTP_PROXY", "ALL_PROXY", "NO_PROXY",
    "http_proxy", "https_proxy", "ftp_proxy", "all_proxy", "no_proxy"]

/-- Whether a request may set a variable. -/
def isAllowedVariable (name : String) : Bool :=
  name ∈ allowedVariables

/-- The variables that a request sets for its commands, if it may set them all. -/
def environment (request : Request) : Except ActionError Bindings :=
  let config := request.config.getD ∅
  match config.names.find? fun name => !isAllowedVariable name with
  | some name => .error (.invalidConfig name)
  | none => .ok config

/-- Whether a character may occur in the name of a setup module. -/
def isModuleCharacter (c : Char) : Bool :=
  c.isAlphanum || c == '_' || c == '-'

/-- Whether a text is the name of a setup module: a nonempty plain word that cannot be taken for
an option. -/
def isModuleName (name : String) : Bool :=
  let chars := name.toList
  !chars.isEmpty && chars.head? != some '-' && chars.all isModuleCharacter

/-- What the commands for an action depend on besides the request. -/
structure Surroundings where
  /-- The distribution of the host, or why it cannot be told. -/
  distribution : Except Host.HostError Host.Distribution
  rebootMessage : String := Host.Plan.defaultRebootMessage

/-- The commands that carry out a request, unless it is refused. -/
def plan (surroundings : Surroundings) (request : Request) (cancelled : Bool) :
    Except ActionError (List Host.Command) := do
  if cancelled then throw .cancelled
  let action ← request.parsedAction.mapError .unknownAction
  let env ← environment request
  match action with
  | .reinit =>
    match request.moduleName.filter fun name => !isModuleName name with
    | some name => throw (.invalidModule name)
    | none => return Host.Plan.setup request.moduleName env
  | .update =>
    let distribution ← surroundings.distribution.mapError .ofHostError
    match distribution.manager? with
    | none => throw (.host (.unsupportedDistribution distribution.id))
    | some manager => return Host.Plan.update manager env
  | .reboot => return [Host.Plan.reboot surroundings.rebootMessage]

/-- Carries out a request on a host on which attempts to run commands end as `attempt` tells.
Gives the commands that were started, and the outcome. -/
def run (attempt : Nat → Host.Command → Host.Ending) (surroundings : Surroundings)
    (request : Request) (cancelled : Bool) : List Host.Command × Except ActionError Unit :=
  match plan surroundings request cancelled with
  | .error error => ([], .error error)
  | .ok commands =>
    let (started, outcome) := Host.runAll attempt 0 commands
    (started, outcome.mapError .ofHostError)

end Executor

end Upkeep
