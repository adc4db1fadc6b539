/-
# Requests as JSON

A request is written as an object with its fields in a fixed order; what is absent is left out.
It is read from an object with its fields in any order, among any others, or from a list of the
four fields in their fixed order. Unknown members are passed over. A field that is given twice
is refused at its second name, and a missing one at the end of the object.
-/

import Upkeep.Request.Basic

namespace Upkeep.Request

/-- The request as a JSON value. -/
def toJson (request : Request) : Json.Value :=
  let moduleMember :=
    request.moduleName.toList.map fun name => ("module", Json.Value.text name)
  let configMember :=
    request.config.toList.map fun config =>
      ("config", Json.Value.object (config.entries.map fun entry => (entry.1, .text entry.2)))
  .object (("action", .text request.action) :: moduleMember ++ configMember ++
    [("timestamp", .number (toString request.timestamp.toInt))])

/-- What a complaint calls the object that is read here. -/
def shapeName : String := "struct WebhookRequest"

/-- The fields of an object that have been read so far. -/
structure Fields where
  action : Option String := none
  moduleName : Option (Option String) := none
  config : Option (Option Bindings) := none
  timestamp : Option Int64 := none

/-- The request made of the fields of a whole object. -/
def Fields.complete (fields : Fields) : Except Json.Fault Request :=
  match fields.action, fields.timestamp with
  | none, _ => .error (.mismatch (.missingField "action"))
  | some _, none => .error (.mismatch (.missingField "timestamp"))
  | some action, some timestamp =>
    .ok ⟨action, fields.moduleName.join, fields.config.join, timestamp⟩

/-- Reads the colon and the value of a field, behind its name, unless the field has a value. -/
def readFresh {α : Type} (name : String) (field : Option α)
    (reader : List UInt8 → Json.Reading α) (bytes : List UInt8) : Json.Reading α :=
  if field.isSome then .error (.mismatch (.duplicateField name))
  else
    match Json.readColon bytes with
    | .error fault => .error fault
    | .ok rest => reader rest

/-- Reads the colon and the value of the member called `name`, behind that name, into its field.
A member of any other name is passed over. -/
def readField (fields : Fields) (name : String) (bytes : List UInt8) : Json.Reading Fields :=
  if name = "action" then
    Json.mapValue (fun value => { fields with action := some value })
      (readFresh name fields.action Json.readString bytes)
  else if name = "module" then
    Json.mapValue (fun value => { fields with moduleName := some value })
      (readFresh name fields.moduleName (Json.readOptional Json.readString) bytes)
  else if name = "config" then
    Json.mapValue (fun value => { fields with config := some value })
      (readFresh name fields.config (Json.readOptional Json.readBindings) bytes)
  else if name = "timestamp" then
    Json.mapValue (fun value => { fields with timestamp := some value })
      (readFresh name fields.timestamp Json.readInt64 bytes)
  else
    match Json.readColon bytes with
    | .error fault => .error fault
    | .ok rest => (Json.skipValue rest).map fun behind => (fields, behind)

/-- A fresh field takes at least its colon. -/
theorem length_of_readFresh {α : Type} {name : String} {field : Option α}
    {reader : List UInt8 → Json.Reading α}
    (hreader : ∀ {bytes rest value}, reader bytes = .ok (value, rest) →
      rest.length < bytes.length)
    {bytes rest : List UInt8} {value : α}
    (h : readFresh name field reader bytes = .ok (value, rest)) : rest.length < bytes.length := by
  unfold readFresh at h
  split at h
  · cases h
  · split at h
    · cases h
    next behind hcolon =>
      have := Json.length_of_readColon hcolon
      have := hreader h
      omega

/-- A field takes at least its colon. -/
theorem length_of_readField {fields result : Fields} {name : String} {bytes rest : List UInt8}
    (h : readField fields name bytes = .ok (result, rest)) : rest.length < bytes.length := by
  unfold readField at h
  split at h
  · obtain ⟨_, hread, _⟩ := Json.exists_of_mapValue h
    exact length_of_readFresh Json.length_of_readString hread
  split at h
  · obtain ⟨_, hread, _⟩ := Json.exists_of_mapValue h
    exact length_of_readFresh (Json.length_of_readOptional Json.length_of_readString) hread
  split at h
  · obtain ⟨_, hread, _⟩ := Json.exists_of_mapValue h
    exact length_of_readFresh (Json.length_of_readOptional Json.length_of_readBindings) hread
  split at h
  · obtain ⟨_, hread, _⟩ := Json.exists_of_mapValue h
    exact length_of_readFresh Json.length_of_readInt64 hread
  split at h
  · cases h
  next behind hcolon =>
    have := Json.length_of_readColon hcolon
    cases hskip : Json.skipValue behind with
    | error fault => simp [hskip, Except.map] at h
    | ok last =>
      simp only [hskip, Except.map, Except.ok.injEq, Prod.mk.injEq] at h
      have := Json.length_of_skipValue hskip
      rw [← h.2]
      omega

/-- Reads the members of an object to its end. -/
def readObject (isFirst : Bool) (fields : Fields) (bytes : List UInt8) : Json.Reading Request :=
  match _hname : Json.readName isFirst bytes with
  | .error fault => .error fault
  | .ok (none, rest) => fields.complete.map fun request => (request, rest)
  | .ok (some name, rest) =>
    match _hfield : readField fields name rest with
    | .error fault => .error fault
    | .ok (read, behind) => readObject false read behind
termination_by bytes.length
decreasing_by
  have := Json.length_of_readName _hname
  have := length_of_readField _hfield
  omega

/-- Reads an optional element of the list form: an absent one is nothing. -/
def readOptionalElement {α : Type} (reader : List UInt8 → Json.Reading α)
    (bytes : List UInt8) : Except Json.Fault (Option α × List UInt8) := do
  let (present, rest) ← Json.readElement false bytes
  if present then Json.readOptional reader rest else return (none, rest)

/-- Reads the four fields as the elements of a list. The two optional ones may be missing at
the end of it; the time may not. -/
def readList (bytes : List UInt8) : Except Json.Fault (Request × List UInt8) := do
  let short (length : Nat) : Json.Fault :=
    .mismatch (.wrongLength length (shapeName ++ " with 4 elements"))
  let (present, rest) ← Json.readElement true bytes
  if !present then throw (short 0)
  let (action, rest) ← Json.readString rest
  let (moduleName, rest) ← readOptionalElement Json.readString rest
  let (config, rest) ← readOptionalElement Json.readBindings rest
  let (present, rest) ← Json.readElement false rest
  if !present then throw (short 3)
  let (timestamp, rest) ← Json.readInt64 rest
  match Json.skipSpace rest with
  | [] => throw .truncated
  | closing :: behind =>
    if closing = Json.ascii ']' then return (⟨action, moduleName, config, timestamp⟩, behind)
    else throw .malformed

/-- Reads a request from a JSON text. -/
def ofJson (bytes : List UInt8) : Except Json.Fault Request :=
  match Json.skipSpace bytes with
  | [] => .error .truncated
  | byte :: rest => do
    let (request, behind) ←
      if byte = Json.ascii '\x7b' then readObject true {} rest
      else if byte = Json.ascii '[' then readList rest
      else .error (Json.complaint shapeName (byte :: rest))
    Json.readEnd behind
    return request

end Upkeep.Request
