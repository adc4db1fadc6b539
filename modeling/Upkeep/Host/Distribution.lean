/-
# Distributions and their package managers

Which package manager a host has follows from the family of its distribution, given by its own
identifier or, failing that, by the first known one that it says it is like. The family of Red
Hat has two managers, the older of which is taken where the newer one is not installed.
-/

import Upkeep.Host.OsRelease

namespace Upkeep.Host

/-- A program that installs packages. -/
inductive PackageManager where
  | apt
  | dnf
  | yum
  | pacman
  | zypper
  | apk
deriving DecidableEq, Repr

namespace PackageManager

/-- All package managers. -/
def all : List PackageManager := [.apt, .dnf, .yum, .pacman, .zypper, .apk]

/-- The name of a package manager. -/
def name : PackageManager → String
  | .apt => "apt"
  | .dnf => "dnf"
  | .yum => "yum"
  | .pacman => "pacman"
  | .zypper => "zypper"
  | .apk => "apk"

/-- The package manager of a name. -/
def ofName? (name : String) : Option PackageManager :=
  all.find? fun manager => manager.name = name

/-- The distributions that are known to use a package manager. -/
def distributions : PackageManager → List String
  | .apt => ["debian", "ubuntu", "raspbian", "linuxmint", "pop", "elementary"]
  | .dnf => ["fedora", "rhel", "centos", "rocky", "almalinux", "amzn", "ol"]
  | .yum => []
  | .pacman => ["arch", "archarm", "manjaro", "endeavouros"]
  | .zypper => ["suse", "opensuse", "opensuse-leap", "opensuse-tumbleweed", "sles"]
  | .apk => ["alpine"]

/-- The package manager of a distribution, if that is known. -/
def ofDistribution? (id : String) : Option PackageManager :=
  all.find? fun manager => id ∈ manager.distributions

end PackageManager

/-- The distribution of a host. -/
inductive Distribution where
  /-- A distribution whose package manager is known. -/
  | supported (id : String) (manager : PackageManager)
  /-- Any other one. -/
  | unsupported (id : String)
deriving DecidableEq, Repr

namespace Distribution

/-- The distribution that a host describes. `dnfInstalled` says whether the newer manager of
the family of Red Hat is there. -/
def ofRelease (release : OsRelease) (dnfInstalled : Bool) : Distribution :=
  let id := if release.id.isEmpty then "unknown" else release.id
  match (release.id :: release.like).findSome? PackageManager.ofDistribution? with
  | none => .unsupported id
  | some .dnf => .supported id (if dnfInstalled then .dnf else .yum)
  | some manager => .supported id manager

/-- The identifier of a distribution. -/
def id : Distribution → String
  | .supported id _ => id
  | .unsupported id => id

/-- The package manager of a distribution. -/
def manager? : Distribution → Option PackageManager
  | .supported _ manager => some manager
  | .unsupported _ => none

/-- How a distribution is shown. -/
def describe : Distribution → String
  | .supported id manager => id ++ " (" ++ manager.name ++ ")"
  | .unsupported id => id ++ " (unsupported)"

end Distribution

end Upkeep.Host
