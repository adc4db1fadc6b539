/-
# Actions

The maintenance work that a caller can ask for, and the tag by which each kind is named
wherever it is written.
-/

import Upkeep.Json.Shape
import Upkeep.Json.Value

namespace Upkeep

/-- A kind of maintenance work. -/
inductive Action where
  /-- Set the host up again, wholly or in one module. -/
  | reinit
  /-- Restart the host. -/
  | reboot
  /-- Bring the installed packages up to date. -/
  | update
deriving DecidableEq, Repr

/-- A tag that names no action. -/
structure UnknownAction where
  tag : String
deriving DecidableEq, Repr

/-- The message about an unknown tag. -/
def UnknownAction.message (unknown : UnknownAction) : String :=
  "invalid action: " ++ unknown.tag

namespace Action

/-- All actions. -/
def all : List Action := [.reinit, .reboot, .update]

/-- The tag of an action. -/
def tag : Action → String
  | .reinit => "reinit"
  | .reboot => "reboot"
  | .update => "update"

/-- The action that a tag names; letter case counts. -/
def ofTag? (tag : String) : Except UnknownAction Action :=
  match all.find? fun action => action.tag = tag with
  | some action => .ok action
  | none => .error ⟨tag⟩

/-- A tag names exactly the action that has it. -/
theorem ofTag?_eq_ok_iff {tag : String} {action : Action} :
    ofTag? tag = .ok action ↔ action.tag = tag := by
  constructor
  · intro h
    unfold ofTag? at h
    split at h
    next found hfind =>
      cases h
      simpa using List.find?_some hfind
    · cases h
  · rintro rfl
    cases action <;> rfl

/-- The action as a JSON value. -/
def toJson (action : Action) : Json.Value :=
  .text action.tag

/-- The action that a JSON tag names. -/
def named (tag : String) : Except Json.Fault Action :=
  match ofTag? tag with
  | .ok action => .ok action
  | .error _ => .error (.mismatch (.unknownVariant tag (all.map Action.tag)))

/-- Reads what stands behind a tag in an object: a colon, `null` and the closing brace. -/
def readUnit (bytes : List UInt8) : Except Json.Fault (List UInt8) := do
  let rest ← Json.readColon bytes
  match Json.skipSpace rest with
  | [] => throw .truncated
  | byte :: behind =>
    if byte = Json.ascii 'n' then
      let behind ← Json.expectWord Json.nullTail behind
      match Json.skipSpace behind with
      | [] => throw .truncated
      | closing :: further =>
        if closing = Json.ascii '\x7d' then return further else throw .malformed
    else throw (Json.complaint "unit" (byte :: behind))

/-- Reads an action from a JSON text: its tag, or an object with the tag as its one name and
`null` as its value. -/
def ofJson (bytes : List UInt8) : Except Json.Fault Action :=
  match Json.skipSpace bytes with
  | [] => .error .truncated
  | byte :: rest =>
    if byte = Json.ascii '"' then do
      let (tag, behind) ← Json.readText rest
      let action ← named tag
      Json.readEnd behind
      return action
    else if byte = Json.ascii '\x7b' then
      match Json.skipSpace rest with
      | [] => .error .truncated
      | quote :: inner =>
        if quote = Json.ascii '"' then do
          let (tag, behind) ← Json.readText inner
          let action ← named tag
          let further ← readUnit behind
          Json.readEnd further
          return action
        else .error .malformed
    else .error .malformed

end Action

end Upkeep
