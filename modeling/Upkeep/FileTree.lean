/-
# The files of a host

What there is on a host at places that every host has: directories, and files that are none.
Following a path fails at the first step that cannot be taken: a step that is too long, a step
from a file, or a step to a place where there is nothing, unless directories are made on the way.
-/

import Upkeep.FilePath

namespace Upkeep

/-- Why a path does not lead where it should. -/
inductive PathFault where
  /-- There is nothing at one of its steps. -/
  | notFound
  /-- The place that it leads to cannot be used in this way. -/
  | denied
  /-- There is something already where a directory is to be made. -/
  | alreadyThere
  /-- One of its steps goes on from a file. -/
  | notDirectory
  /-- Nothing can be changed at the place that it leads to. -/
  | readOnly
  /-- The path or one of its steps is longer than a path or a name can be. -/
  | tooLong
deriving DecidableEq, Repr

/-- What the system says about a path that does not lead where it should. -/
def PathFault.message : PathFault → String
  | .notFound => "No such file or directory (os error 2)"
  | .denied => "Permission denied (os error 13)"
  | .alreadyThere => "File exists (os error 17)"
  | .notDirectory => "Not a directory (os error 20)"
  | .readOnly => "Read-only file system (os error 30)"
  | .tooLong => "File name too long (os error 36)"

/-- What there is on a host, each place as the names that lead to it from the root. -/
structure FileTree where
  directories : List (List String)
  /-- What there is and is no directory. None of it can be run. -/
  files : List (List String)
  /-- Directories below which nothing can be made, each with what stands in the way. -/
  fixed : List (List String × PathFault)

namespace FileTree

/-- The most bytes that a name may have. -/
def maxNameLength : Nat := 255

/-- The most bytes that a path may have. -/
def maxPathLength : Nat := 4095

/-- What there is on every host. -/
def usual : FileTree where
  directories := ["/bin", "/boot", "/dev", "/dev/fd", "/dev/pts", "/dev/shm", "/etc", "/home",
    "/lib", "/media", "/mnt", "/opt", "/proc", "/proc/self", "/root", "/run", "/sbin", "/srv",
    "/sys", "/tmp", "/usr", "/usr/bin", "/usr/lib", "/usr/local", "/usr/local/bin", "/usr/sbin",
    "/usr/share", "/var", "/var/cache", "/var/lib", "/var/log", "/var/run", "/var/spool",
    "/var/tmp"].map fun text => (FilePath.mk text).names
  files := ["/dev/full", "/dev/null", "/dev/ptmx", "/dev/random", "/dev/stderr", "/dev/stdin",
    "/dev/stdout", "/dev/tty", "/dev/urandom", "/dev/zero", "/etc/group", "/etc/hostname",
    "/etc/hosts", "/etc/os-release", "/etc/passwd", "/etc/resolv.conf", "/etc/shadow",
    "/proc/cmdline", "/proc/cpuinfo", "/proc/loadavg", "/proc/meminfo", "/proc/mounts",
    "/proc/self/cmdline", "/proc/self/environ", "/proc/self/maps", "/proc/self/stat",
    "/proc/self/status", "/proc/stat", "/proc/uptime", "/proc/version"].map fun text =>
    (FilePath.mk text).names
  fixed := [(["proc"], .notFound), (["dev", "fd"], .notFound), (["sys"], .readOnly)]

/-- Why nothing can be made in a directory, if nothing can. -/
def makeFault? (tree : FileTree) (place : List String) : Option PathFault :=
  (tree.fixed.find? (·.1.isPrefixOf place)).map (·.2)

/-- Whether there is anything at a place. -/
def contains (tree : FileTree) (place : List String) : Bool :=
  place ∈ tree.directories || place ∈ tree.files

/-- Takes steps from a place on. Where there is nothing, `make` tells whether a directory is made
there. -/
def walk (tree : FileTree) (make : Bool) :
    List String → List String → Except PathFault (List String)
  | place, [] => .ok place
  | place, step :: rest =>
    if place ∈ tree.files then .error .notDirectory
    else if step = FilePath.stay then walk tree make place rest
    else if step = FilePath.up then walk tree make place.dropLast rest
    else if maxNameLength < step.utf8ByteSize then .error .tooLong
    else if tree.contains (place ++ [step]) then walk tree make (place ++ [step]) rest
    else if make then
      match tree.makeFault? place with
      | some fault => .error fault
      | none => walk tree make (place ++ [step]) rest
    else .error .notFound

/-- Where a path begins for whoever is at a place. -/
def beginning (here : List String) (path : FilePath) : List String :=
  if path.isAbsolute then [] else here

/-- Why what a path leads to cannot be run. -/
def runFault (tree : FileTree) (here : List String) (path : FilePath) : PathFault :=
  if maxPathLength < path.text.utf8ByteSize then .tooLong
  else
    match tree.walk false (beginning here path) path.steps with
    | .error fault => fault
    | .ok _ => .denied

/-- Makes the directory of a path's file, with all directories above it. Gives the place. -/
def makeDirectory (tree : FileTree) (here : List String) (path : FilePath) :
    Except PathFault (List String) := do
  if maxPathLength < path.directoryLength then throw .tooLong
  let place ← tree.walk true (beginning here path) path.names.dropLast
  if place ∈ tree.files then throw .alreadyThere
  return place

end FileTree

end Upkeep
