/-
# Requests

What a caller sends: which action to run, for which module of the host's setup, with which
configuration, and when the request was signed. The action is kept as the tag that was sent, so
that an unknown one can be judged after the signature.
-/

import Upkeep.Action
import Upkeep.Bindings

namespace Upkeep

/-- A request for a maintenance action. -/
structure Request where
  action : String
  /-- The setup module to run, if only one is wanted. -/
  moduleName : Option String := none
  config : Option Bindings := none
  /-- When the request was signed, in seconds since the beginning of 1970. -/
  timestamp : Int64
deriving DecidableEq

/-- The action that a request names. -/
def Request.parsedAction (request : Request) : Except UnknownAction Action :=
  Action.ofTag? request.action

end Upkeep
