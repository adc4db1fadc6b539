/-
# Telling the distribution of a host

A host's description of its system is a file. It may be missing, or hold bytes that are no text;
otherwise it says which distribution the host has.
-/

import Upkeep.Host.Run

namespace Upkeep.Host

/-- Why a file of bytes that are no text cannot be read. -/
def noTextReason : String := "stream did not contain valid UTF-8"

/-- The distribution that the file at a path describes, if it is there. -/
def Distribution.read (path : String) (contents : Option (List UInt8)) (dnfInstalled : Bool) :
    Except HostError Distribution :=
  match contents with
  | none => .error (.unreadableRelease path PathFault.notFound.message)
  | some bytes =>
    match Text.Utf8.decode? bytes with
    | none => .error (.unreadableRelease path noTextReason)
    | some text => .ok (.ofRelease (.ofText text) dnfInstalled)

end Upkeep.Host
