/-
# Plans

What is run for an action, as a list of commands to be run one after the other. A plan only says
what to do; it does not depend on the host beyond the package manager.
-/

import Upkeep.Host.Command
import Upkeep.Host.Distribution

namespace Upkeep.Host.Plan

/-- The message with which a restart is announced, unless told otherwise. -/
def defaultRebootMessage : String := "cloud-update: rebooting at operator request"

/-- A command of some words without variables. -/
def plain (program : String) (args : List String) : Command :=
  { program, args }

/-- A command of the Debian package tools, which must not ask questions. -/
def aptGet (args : List String) : Command :=
  (plain "apt-get" args).withVariable "DEBIAN_FRONTEND" "noninteractive"

/-- The commands that bring all packages up to date, without the caller's variables. -/
def updateSteps : PackageManager → List Command
  | .apt => [aptGet ["update"], aptGet ["-y", "upgrade"]]
  | .dnf => [plain "dnf" ["-y", "upgrade"]]
  | .yum => [plain "yum" ["-y", "update"]]
  | .pacman => [plain "pacman" ["-Syu", "--noconfirm"]]
  | .zypper => [plain "zypper" ["--non-interactive", "update"]]
  | .apk => [plain "apk" ["update"], plain "apk" ["upgrade"]]

/-- The commands that bring all packages up to date. -/
def update (manager : PackageManager) (env : Bindings) : List Command :=
  (updateSteps manager).map fun command => command.withEnv env

/-- The commands that set the host up again, without the caller's variables: a single module if
one is named, and otherwise everything from the start. -/
def setupSteps : Option String → List Command
  | some moduleName =>
    [plain "cloud-init" ["single", "--name", moduleName, "--frequency", "always"]]
  | none => [plain "cloud-init" ["clean", "--logs"], plain "cloud-init" ["init"]]

/-- The commands that set the host up again. -/
def setup (moduleName : Option String) (env : Bindings) : List Command :=
  (setupSteps moduleName).map fun command => command.withEnv env

/-- The command that restarts the host in a minute. -/
def reboot (message : String) : Command :=
  plain "shutdown" ["-r", "+1", message]

end Upkeep.Host.Plan
