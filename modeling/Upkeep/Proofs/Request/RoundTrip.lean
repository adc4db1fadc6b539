/-
# Requests there and back

A request is read from what is written for it, whatever its texts hold, whichever of its fields are
left out, and in whatever order the entries of its configuration are listed. The order matters
because a map of settings promises none to those who write it.

The reader goes through an object member by member and keeps what it has found so far. So each kind
of member comes first, with what it adds to the fields that were read before it (`Fields.Reads`);
members in a row add one after the other, and the closing brace makes the request of the sum.
-/

import Upkeep.Proofs.Json.Shape
import Upkeep.Request.Written

namespace Upkeep.Request

open Json

/-- The request as a JSON value, with the entries of its configuration in an order of their own. -/
def toJsonListing (request : Request) (listing : Bindings → List (String × String)) : Json.Value :=
  let moduleMember :=
    request.moduleName.toList.map fun name => ("module", Value.text name)
  let configMember :=
    request.config.toList.map fun config =>
      ("config", Value.object ((listing config).map fun entry => (entry.1, .text entry.2)))
  .object (("action", .text request.action) :: moduleMember ++ configMember ++
    [("timestamp", .number (toString request.timestamp.toInt))])

/-- By itself, a request lists the entries in the order of their names. -/
theorem toJson_eq (request : Request) : request.toJson = request.toJsonListing Bindings.entries :=
  rfl

/-! ## Members -/

/-- A member, when it is read behind some fields, leads to further ones, whatever follows it in its
object. -/
def Fields.Reads (fields : Fields) (name : String) (value : Value) (next : Fields) : Prop :=
  ∀ rest, EndsNumber rest →
    readField fields name (ascii ':' :: (bytesOf value.write ++ rest)) = .ok (next, rest)

theorem readFresh_of_colon {α : Type} {name : String} {field : Option α}
    {reader : List UInt8 → Reading α} {bytes behind rest : List UInt8} {value : α}
    (hfresh : field = none) (hcolon : readColon bytes = .ok behind)
    (hread : reader behind = .ok (value, rest)) :
    readFresh name field reader bytes = .ok (value, rest) := by
  rw [readFresh, hfresh, hcolon]
  exact hread

section Dispatch

variable {fields : Fields} {bytes : List UInt8}

theorem readField_action : readField fields "action" bytes =
    mapValue (fun value => { fields with action := some value })
      (readFresh "action" fields.action readString bytes) := by
  rw [readField, if_pos rfl]

theorem readField_module : readField fields "module" bytes =
    mapValue (fun value => { fields with moduleName := some value })
      (readFresh "module" fields.moduleName (readOptional readString) bytes) := by
  rw [readField, if_neg (by decide), if_pos rfl]

theorem readField_config : readField fields "config" bytes =
    mapValue (fun value => { fields with config := some value })
      (readFresh "config" fields.config (readOptional readBindings) bytes) := by
  rw [readField, if_neg (by decide), if_neg (by decide), if_pos rfl]

theorem readField_timestamp : readField fields "timestamp" bytes =
    mapValue (fun value => { fields with timestamp := some value })
      (readFresh "timestamp" fields.timestamp readInt64 bytes) := by
  rw [readField, if_neg (by decide), if_neg (by decide), if_neg (by decide), if_pos rfl]

end Dispatch

namespace Fields

variable {fields : Fields}

theorem reads_action (hfresh : fields.action = none) (text : String) :
    fields.Reads "action" (.text text) { fields with action := some text } := by
  intro rest _
  have hread : readString (bytesOf (Value.text text).write ++ rest) = .ok (text, rest) :=
    readString_written text rest
  rw [readField_action, readFresh_of_colon hfresh (readColon_written _) hread]
  rfl

theorem reads_module (hfresh : fields.moduleName = none) (name : String) :
    fields.Reads "module" (.text name) { fields with moduleName := some (some name) } := by
  intro rest _
  have hread : readOptional readString (bytesOf (Value.text name).write ++ rest) =
      .ok (some name, rest) := by
    rw [Value.write, bytesOf_writeText_append, readOptional_of_solid rfl (by decide),
      ← bytesOf_writeText_append, readString_written]
    rfl
  rw [readField_module, readFresh_of_colon hfresh (readColon_written _) hread]
  rfl

theorem reads_config (hfresh : fields.config = none) (entries : List (String × String)) :
    fields.Reads "config" (.object (entries.map fun entry => (entry.1, .text entry.2)))
      { fields with config := some (some (.ofList entries)) } := by
  intro rest _
  have hread : readOptional readBindings
      (bytesOf (Value.object (entries.map fun entry => (entry.1, .text entry.2))).write ++ rest) =
        .ok (some (.ofList entries), rest) := by
    rw [bytesOf_object, readOptional_of_solid rfl (by decide), ← bytesOf_object,
      readBindings_written]
    rfl
  rw [readField_config, readFresh_of_colon hfresh (readColon_written _) hread]
  rfl

theorem reads_timestamp (hfresh : fields.timestamp = none) (value : Int64) :
    fields.Reads "timestamp" (.number (toString value.toInt))
      { fields with timestamp := some value } := by
  intro rest hends
  have hread : readInt64 (bytesOf (Value.number (toString value.toInt)).write ++ rest) =
      .ok (value, rest) := readInt64_written value hends
  rw [readField_timestamp, readFresh_of_colon hfresh (readColon_written _) hread]
  rfl

end Fields

/-! ## Objects -/

/-- Members in a row lead from some fields to others. -/
inductive Fields.ReadsAll : Fields → List (String × Value) → Fields → Prop
  | nil (fields : Fields) : ReadsAll fields [] fields
  | cons {fields next last : Fields} {name : String} {value : Value}
      {members : List (String × Value)} (hfirst : fields.Reads name value next)
      (hrest : ReadsAll next members last) : ReadsAll fields ((name, value) :: members) last

namespace Fields

theorem ReadsAll.append {fields next last : Fields} {members others : List (String × Value)}
    (hfirst : fields.ReadsAll members next) (hrest : next.ReadsAll others last) :
    fields.ReadsAll (members ++ others) last := by
  induction hfirst with
  | nil => exact hrest
  | cons hread _ ih => exact .cons hread (ih hrest)

/-- A member that is left out leaves its field as it is, and one that is there fills it. -/
theorem readsAll_module (fields : Fields) (hfresh : fields.moduleName = none)
    (moduleName : Option String) :
    fields.ReadsAll (moduleName.toList.map fun name => ("module", .text name))
      { fields with moduleName := moduleName.map some } := by
  cases moduleName with
  | none =>
      cases fields
      cases hfresh
      exact .nil _
  | some name => exact .cons (reads_module hfresh name) (.nil _)

theorem readsAll_config (fields : Fields) (hfresh : fields.config = none)
    {config : Option Bindings} {listing : Bindings → List (String × String)}
    (hlisting : ∀ bindings ∈ config, (listing bindings).Perm bindings.entries) :
    fields.ReadsAll (config.toList.map fun bindings =>
        ("config", .object ((listing bindings).map fun entry => (entry.1, .text entry.2))))
      { fields with config := config.map some } := by
  cases config with
  | none =>
      cases fields
      cases hfresh
      exact .nil _
  | some bindings =>
      have hread := reads_config hfresh (listing bindings)
      rw [Bindings.ofList_of_perm (hlisting bindings rfl)] at hread
      exact .cons hread (.nil _)

end Fields

section Objects

variable {bytes rest : List UInt8} {isFirst : Bool} {fields : Fields}

theorem readObject_of_closing (hname : readName isFirst bytes = .ok (none, rest)) :
    readObject isFirst fields bytes = fields.complete.map fun request => (request, rest) := by
  rw [readObject]
  split <;> simp_all

theorem readObject_of_member {name : String} {behind : List UInt8} {next : Fields}
    (hname : readName isFirst bytes = .ok (some name, behind))
    (hfield : readField fields name behind = .ok (next, rest)) :
    readObject isFirst fields bytes = readObject false next rest := by
  rw [readObject]
  split
  next hother => cases hname.symm.trans hother
  next hother => cases hname.symm.trans hother
  next hother =>
    cases hname.symm.trans hother
    split
    next hother => cases hfield.symm.trans hother
    next hother => cases hfield.symm.trans hother; rfl

/-- An object is read to its closing brace, and gives the request of all that its members add. -/
theorem readObject_written {members : List (String × Value)} {last : Fields}
    (hreads : fields.ReadsAll members last) (rest : List UInt8) :
    readObject isFirst fields (spellMembers isFirst members ++ ascii '\x7d' :: rest) =
      last.complete.map fun request => (request, rest) := by
  induction hreads generalizing isFirst with
  | nil fields => exact readObject_of_closing (readName_closing isFirst rest)
  | @cons fields next last name value members hfirst _ ih =>
      rw [readObject_of_member (readName_written ..)
        (hfirst _ (endsNumber_members members rest)), ih]

end Objects

/-- A text with an object gives the request of all that its members add. -/
theorem ofJson_object {members : List (String × Value)} {last : Fields} {request : Request}
    (hreads : Fields.ReadsAll {} members last) (hcomplete : last.complete = .ok request) :
    ofJson (Text.Utf8.encode (Value.object members).render) = .ok request := by
  have hbytes := bytesOf_object members []
  rw [List.append_nil] at hbytes
  rw [encode_render, hbytes, ofJson, skipSpace_of_not_space rfl]
  dsimp only
  rw [if_pos rfl, readObject_written hreads, hcomplete]
  rfl

/-- The fields of a whole request. -/
def fields (request : Request) : Fields :=
  ⟨some request.action, request.moduleName.map some, request.config.map some,
    some request.timestamp⟩

theorem complete_fields (request : Request) : request.fields.complete = .ok request := by
  obtain ⟨action, moduleName, config, timestamp⟩ := request
  cases moduleName <;> cases config <;> rfl

/-- What is written for a request is read as this request: its texts and its time are the same, what
is absent stays absent, and the entries of its configuration may be listed in any order. -/
theorem ofJson_written (request : Request) {listing : Bindings → List (String × String)}
    (hlisting : ∀ config ∈ request.config, (listing config).Perm config.entries) :
    ofJson (Text.Utf8.encode (request.toJsonListing listing).render) = .ok request := by
  have haction : Fields.ReadsAll {} (("action", .text request.action) ::
      request.moduleName.toList.map fun name => ("module", Value.text name))
        { request.fields with config := none, timestamp := none } :=
    .cons (Fields.reads_action rfl request.action) (Fields.readsAll_module _ rfl request.moduleName)
  have hconfig := Fields.readsAll_config { request.fields with config := none, timestamp := none }
    rfl hlisting
  have htimestamp : Fields.ReadsAll { request.fields with timestamp := none }
      [("timestamp", .number (toString request.timestamp.toInt))] request.fields :=
    .cons (Fields.reads_timestamp rfl request.timestamp) (.nil _)
  exact ofJson_object ((haction.append hconfig).append htimestamp) request.complete_fields

/-- A request for setting up again, with texts that need escapes and characters of several bytes,
from the earliest moment there is. -/
def wordy : Request where
  action := "re\"init\"\\\n\x01"
  config := some (.ofList [("é", "😀"), ("a", ""), ("b", "\x7f")])
  timestamp := Int64.minValue

/-- The request is read although its configuration is written from the last entry to the first. -/
theorem ofJson_written_backwards :
    (∀ config ∈ wordy.config, config.entries.reverse.Perm config.entries) ∧
      (wordy.toJsonListing fun config => config.entries.reverse).render =
        "\x7b\"action\":\"re\\\"init\\\"\\\\\\n\\u0001\",\"config\":\x7b\"é\":\"😀\"," ++
          "\"b\":\"\x7f\",\"a\":\"\"\x7d,\"timestamp\":-9223372036854775808\x7d" ∧
        ofJson (Text.Utf8.encode
          (wordy.toJsonListing fun config => config.entries.reverse).render) = .ok wordy :=
  ⟨fun config _ => config.entries.reverse_perm, by decide +kernel,
    ofJson_written wordy fun config _ => config.entries.reverse_perm⟩

end Upkeep.Request
