/-
# Requests by their fields

Of an object text only the values of the four fields matter. In whatever order its members stand,
whatever blanks are between the tokens and whatever other members there are, the request is the one
that the fields describe; and where a field comes twice, or one is missing that has to be there, or
the time does not fit, there is no request.

The reader fills the fields one by one while it passes over the rest. So for a text that describes a
request, the invariant says what the members still to come will put into the fields that are empty
(`Fields.Awaits`). For a defective text nothing can be said in advance about the values, which may
be of any kind. There the reader is followed as long as it succeeds. It then stands behind each
value where the grammar says, so every member with the name of a field has filled this field, and
none can be filled twice.
-/

import Upkeep.Proofs.Json.Agreement
import Upkeep.Proofs.Json.Spelling
import Upkeep.Proofs.Request.RoundTrip

namespace Upkeep.Request

open Json

/-! ## What the members say -/

/-- The members that a request knows. -/
def fieldNames : List String :=
  ["action", "module", "config", "timestamp"]

/-- The values of all members with a name, from the first to the last. -/
def valuesOf (members : List (String × List UInt8)) (name : String) : List (List UInt8) :=
  (members.filter fun member => member.1 = name).map Prod.snd

/-- What the values of a member say that may be left out: at most one, which may be `null`. -/
inductive MaySay {α : Type} (Says : List UInt8 → α → Prop) : List (List UInt8) → Option α → Prop
  | absent : MaySay Says [] none
  | present {value : List UInt8} {meaning : Option α} (hvalue : IsNullOr Says value meaning) :
      MaySay Says [value] meaning

/-- The fields among the members are those of a request. -/
structure Describes (members : List (String × List UInt8)) (request : Request) : Prop where
  action : ∃ value, valuesOf members "action" = [value] ∧ IsString value request.action
  moduleName : MaySay IsString (valuesOf members "module") request.moduleName
  config : MaySay IsMap (valuesOf members "config") request.config
  timestamp : ∃ value, valuesOf members "timestamp" = [value] ∧
    IsInteger value request.timestamp.toInt

/-- No integer of 64 bits with sign is this number. -/
def IsOutside (number : Int) : Prop :=
  number < Int64.minValue.toInt ∨ Int64.maxValue.toInt < number

theorem not_isOutside (number : Int64) : ¬IsOutside number.toInt := by
  have hmax : number.toInt ≤ Int64.maxValue.toInt := Int.le_of_lt_add_one number.toInt_lt
  exact not_or.2 ⟨Int.not_lt.2 number.minValue_le_toInt, Int.not_lt.2 hmax⟩

/-- What is wrong with the members of an object that makes no request. -/
inductive IsDefective (members : List (String × List UInt8)) : Prop
  | repeated {name : String} (hname : name ∈ fieldNames)
      (hrepeated : 2 ≤ (valuesOf members name).length)
  | noAction (hmissing : valuesOf members "action" = [])
  | noTimestamp (hmissing : valuesOf members "timestamp" = [])
  | noInteger {value : List UInt8} (hvalue : value ∈ valuesOf members "timestamp")
      (hnone : ∀ number, ¬IsInteger value number)
  | outside {value : List UInt8} {number : Int} (hvalue : value ∈ valuesOf members "timestamp")
      (hinteger : IsInteger value number) (houtside : IsOutside number)

section Values

variable {members : List (String × List UInt8)} {name other : String} {value : List UInt8}

theorem valuesOf_cons_self : valuesOf ((name, value) :: members) name =
    value :: valuesOf members name := by
  simp [valuesOf]

theorem valuesOf_cons_of_ne (hne : name ≠ other) :
    valuesOf ((name, value) :: members) other = valuesOf members other := by
  simp [valuesOf, hne]

theorem valuesOf_cons (member : String × List UInt8) (members : List (String × List UInt8))
    (name : String) :
    valuesOf (member :: members) name = valuesOf [member] name ++ valuesOf members name := by
  by_cases hname : member.1 = name <;> simp [valuesOf, hname]

end Values

/-! ## Texts that describe a request -/

/-- What a field that holds something or nothing will hold once some values are read into it. -/
inductive Fills {α : Type} (Says : List UInt8 → α → Prop) (held : Option α) :
    List (List UInt8) → Option α → Prop
  | nothing : Fills Says held [] held
  | value {value : List UInt8} {meaning : α} (hfresh : held = none)
      (hmeaning : Says value meaning) : Fills Says held [value] (some meaning)

/-- The first value fills a field that was empty. -/
theorem Fills.of_cons {α : Type} {Says : List UInt8 → α → Prop} {held last : Option α}
    {value : List UInt8} {values : List (List UInt8)}
    (hfills : Fills Says held (value :: values) last) :
    held = none ∧ ∃ meaning, Says value meaning ∧ Fills Says (some meaning) values last := by
  cases hfills with
  | value hfresh hmeaning => exact ⟨hfresh, _, hmeaning, .nothing⟩

/-- What a member that may be left out will fill in. -/
theorem MaySay.exists_fills {α : Type} {Says : List UInt8 → α → Prop}
    {values : List (List UInt8)} {meaning : Option α} (hmeaning : MaySay Says values meaning) :
    ∃ last, Fills (IsNullOr Says) none values last ∧ last.join = meaning := by
  cases hmeaning with
  | absent => exact ⟨none, .nothing, rfl⟩
  | @present _ meaning hvalue => exact ⟨some meaning, .value rfl hvalue, rfl⟩

namespace Fields

/-- The members to come lead from some fields to others. -/
structure Awaits (fields : Fields) (members : List (String × List UInt8)) (last : Fields) :
    Prop where
  action : Fills IsString fields.action (valuesOf members "action") last.action
  moduleName : Fills (IsNullOr IsString) fields.moduleName (valuesOf members "module")
    last.moduleName
  config : Fills (IsNullOr IsMap) fields.config (valuesOf members "config") last.config
  timestamp : Fills (fun value (number : Int64) => IsInteger value number.toInt)
    fields.timestamp (valuesOf members "timestamp") last.timestamp

/-- A member, when it is read behind some fields, leads to further ones, whatever blanks are in it
and whatever follows it in its object. -/
def Takes (fields : Fields) (name : String) (value : List UInt8) (next : Fields) : Prop :=
  ∀ {between inner rest : List UInt8}, IsBlank between → IsBlank inner → EndsNumber rest →
    readField fields name (between ++ ascii ':' :: (inner ++ (value ++ rest))) = .ok (next, rest)

section Takes

variable {fields : Fields} {name : String} {value : List UInt8}

theorem takes_action (hfresh : fields.action = none) {text : String}
    (hvalue : IsString value text) :
    fields.Takes "action" value { fields with action := some text } := by
  intro between inner rest hbetween hinner _
  rw [readField_action, readFresh_of_colon hfresh (readColon_append hbetween _)
    (readString_of_isString hinner hvalue rest)]
  rfl

theorem takes_module (hfresh : fields.moduleName = none) {moduleName : Option String}
    (hvalue : IsNullOr IsString value moduleName) :
    fields.Takes "module" value { fields with moduleName := some moduleName } := by
  intro between inner rest hbetween hinner _
  rw [readField_module, readFresh_of_colon hfresh (readColon_append hbetween _)
    (readOptional_of_isNullOr hinner hvalue IsString.exists_first fun hmeaning =>
      readString_of_isString (List.forall_mem_nil _) hmeaning rest)]
  rfl

theorem takes_config (hfresh : fields.config = none) {config : Option Bindings}
    (hvalue : IsNullOr IsMap value config) :
    fields.Takes "config" value { fields with config := some config } := by
  intro between inner rest hbetween hinner _
  rw [readField_config, readFresh_of_colon hfresh (readColon_append hbetween _)
    (readOptional_of_isNullOr hinner hvalue IsMap.exists_first fun hmeaning =>
      readBindings_of_isMap hmeaning rest)]
  rfl

theorem takes_timestamp (hfresh : fields.timestamp = none) {number : Int64}
    (hvalue : IsInteger value number.toInt) :
    fields.Takes "timestamp" value { fields with timestamp := some number } := by
  intro between inner rest hbetween hinner hends
  rw [readField_timestamp, readFresh_of_colon hfresh (readColon_append hbetween _)
    (readInt64_of_isInteger hinner hvalue hends)]
  rfl

theorem readField_unknown {bytes behind : List UInt8} (hname : name ∉ fieldNames)
    (hcolon : readColon bytes = .ok behind) :
    readField fields name bytes = (skipValue behind).map fun rest => (fields, rest) := by
  simp only [fieldNames, List.mem_cons, List.not_mem_nil, or_false, not_or] at hname
  obtain ⟨haction, hmodule, hconfig, htimestamp⟩ := hname
  rw [readField, if_neg haction, if_neg hmodule, if_neg hconfig, if_neg htimestamp, hcolon]

/-- A member of another name leaves the fields as they are, if its value is one at all. -/
theorem takes_unknown (hname : name ∉ fieldNames) (hvalue : IsValue value) :
    fields.Takes name value fields := by
  intro between inner rest hbetween hinner hends
  rw [readField_unknown hname (readColon_append hbetween _), skipValue_append hinner hvalue hends]
  rfl

end Takes

section Awaits

variable {fields last : Fields} {name : String} {value : List UInt8}
  {members : List (String × List UInt8)}

/-- The next member fills its field, and the others are filled by the members behind it. -/
theorem Awaits.exists_takes (hawaits : fields.Awaits ((name, value) :: members) last)
    (hvalue : IsValue value) : ∃ next, fields.Takes name value next ∧ next.Awaits members last := by
  obtain ⟨haction, hmodule, hconfig, htimestamp⟩ := hawaits
  by_cases hname : name ∈ fieldNames
  · simp only [fieldNames, List.mem_cons, List.not_mem_nil, or_false] at hname
    rcases hname with rfl | rfl | rfl | rfl
    · rw [valuesOf_cons_self] at haction
      rw [valuesOf_cons_of_ne (by decide)] at hmodule hconfig htimestamp
      obtain ⟨hfresh, text, hmeaning, hrest⟩ := haction.of_cons
      exact ⟨_, takes_action hfresh hmeaning, hrest, hmodule, hconfig, htimestamp⟩
    · rw [valuesOf_cons_self] at hmodule
      rw [valuesOf_cons_of_ne (by decide)] at haction hconfig htimestamp
      obtain ⟨hfresh, moduleName, hmeaning, hrest⟩ := hmodule.of_cons
      exact ⟨_, takes_module hfresh hmeaning, haction, hrest, hconfig, htimestamp⟩
    · rw [valuesOf_cons_self] at hconfig
      rw [valuesOf_cons_of_ne (by decide)] at haction hmodule htimestamp
      obtain ⟨hfresh, config, hmeaning, hrest⟩ := hconfig.of_cons
      exact ⟨_, takes_config hfresh hmeaning, haction, hmodule, hrest, htimestamp⟩
    · rw [valuesOf_cons_self] at htimestamp
      rw [valuesOf_cons_of_ne (by decide)] at haction hmodule hconfig
      obtain ⟨hfresh, number, hmeaning, hrest⟩ := htimestamp.of_cons
      exact ⟨_, takes_timestamp hfresh hmeaning, haction, hmodule, hconfig, hrest⟩
  · have hother : ∀ field ∈ fieldNames, valuesOf ((name, value) :: members) field =
        valuesOf members field := by
      intro field hfield
      apply valuesOf_cons_of_ne
      rintro rfl
      exact hname hfield
    rw [hother _ (by decide)] at haction hmodule hconfig htimestamp
    exact ⟨fields, takes_unknown hname hvalue, haction, hmodule, hconfig, htimestamp⟩

/-- Without members the fields remain as they are. -/
theorem Awaits.eq_of_nil (hawaits : fields.Awaits [] last) : last = fields := by
  obtain ⟨haction, hmodule, hconfig, htimestamp⟩ := hawaits
  obtain ⟨action, moduleName, config, timestamp⟩ := fields
  obtain ⟨action', moduleName', config', timestamp'⟩ := last
  cases haction
  cases hmodule
  cases hconfig
  cases htimestamp
  rfl

end Awaits

end Fields

section Objects

variable {isFirst : Bool} {fields next last : Fields} {name : String}
  {value bytes blank rest : List UInt8} {members : List (String × List UInt8)}

theorem readObject_append (hblank : IsBlank blank) :
    readObject isFirst fields (blank ++ bytes) = readObject isFirst fields bytes := by
  rw [readObject.eq_def, readObject.eq_def isFirst fields bytes, readName_append hblank]

theorem readObject_of_takes (hmember : IsMember name value bytes)
    (htakes : fields.Takes name value next) (hends : EndsNumber rest) :
    readObject isFirst fields ((if isFirst then [] else [ascii ',']) ++ (bytes ++ rest)) =
      readObject false next rest := by
  obtain ⟨between, inner, after, hbetween, hinner, hafter, hname⟩ := hmember.exists_readName
  rw [readObject_of_member (hname isFirst rest)
    (htakes hbetween hinner (hends.append_blank hafter))]
  exact readObject_append hafter

/-- An object is read to its closing brace, and the fields are those that its members lead to. -/
theorem readObject_of_awaits (hmembers : IsMembers members bytes)
    (hawaits : fields.Awaits members last) (rest : List UInt8) :
    readObject isFirst fields
        ((if isFirst then [] else [ascii ',']) ++ (bytes ++ ascii '\x7d' :: rest)) =
      last.complete.map fun request => (request, rest) := by
  induction hmembers generalizing isFirst fields with
  | last hmember =>
      obtain ⟨next, htakes, hnext⟩ := hawaits.exists_takes hmember.isValue
      have hends : EndsNumber (ascii '\x7d' :: rest) := Bracket.object.endsNumber_closing rest
      rw [readObject_of_takes hmember htakes hends,
        readObject_of_closing (readName_closing false rest), hnext.eq_of_nil]
  | more hmember _ ih =>
      obtain ⟨next, htakes, hnext⟩ := hawaits.exists_takes hmember.isValue
      rw [List.append_assoc, List.cons_append,
        readObject_of_takes hmember htakes (endsNumber_comma _)]
      exact ih hnext

end Objects

/-! ## Texts that are read at all -/

namespace Fields

/-- Whether the field of a name holds anything. -/
def holds (fields : Fields) (name : String) : Bool :=
  if name = "action" then fields.action.isSome
  else if name = "module" then fields.moduleName.isSome
  else if name = "config" then fields.config.isSome
  else fields.timestamp.isSome

/-- Some members can have led from some fields to others: each that has the name of a field has
filled this field, and a time among them is an integer that fits. -/
structure Accounts (fields : Fields) (members : List (String × List UInt8)) (last : Fields) :
    Prop where
  holds : ∀ name ∈ fieldNames, (last.holds name).toNat =
    (fields.holds name).toNat + (valuesOf members name).length
  fits : ∀ value ∈ valuesOf members "timestamp", ∃ number : Int64, IsInteger value number.toInt

section Accounts

variable {fields next last : Fields} {name : String} {value between inner rest behind : List UInt8}
  {members : List (String × List UInt8)}

theorem Accounts.nil (fields : Fields) : fields.Accounts [] fields :=
  ⟨fun _ _ => rfl, List.forall_mem_nil _⟩

theorem Accounts.cons {member : String × List UInt8} (hfirst : fields.Accounts [member] next)
    (hrest : next.Accounts members last) : fields.Accounts (member :: members) last := by
  constructor
  · intro name hname
    rw [hrest.holds name hname, hfirst.holds name hname, valuesOf_cons member members,
      List.length_append, Nat.add_assoc]
  · intro value hvalue
    rw [valuesOf_cons] at hvalue
    rcases List.mem_append.1 hvalue with hvalue | hvalue
    · exact hfirst.fits value hvalue
    · exact hrest.fits value hvalue

theorem of_readFresh {α : Type} {field : Option α} {reader : List UInt8 → Reading α}
    {bytes : List UInt8} {found : α} (hcolon : readColon bytes = .ok behind)
    (hread : readFresh name field reader bytes = .ok (found, rest)) :
    field = none ∧ reader behind = .ok (found, rest) := by
  rw [readFresh, hcolon] at hread
  split at hread
  next => cases hread
  next hfresh => exact ⟨Option.not_isSome_iff_eq_none.1 hfresh, hread⟩

variable (hvalue : IsValue value) (hbetween : IsBlank between) (hinner : IsBlank inner)
  (hends : EndsNumber rest)

include hvalue hbetween hinner hends

/-- A member that is read has filled its field, if it has one, and what is left stands behind its
value. -/
theorem accounts_of_readField
    (hread : readField fields name (between ++ ascii ':' :: (inner ++ (value ++ rest))) =
      .ok (next, behind)) : behind = rest ∧ fields.Accounts [(name, value)] next := by
  have hcolon := readColon_append hbetween (inner ++ (value ++ rest))
  by_cases hname : name ∈ fieldNames
  · simp only [fieldNames, List.mem_cons, List.not_mem_nil, or_false] at hname
    rcases hname with rfl | rfl | rfl | rfl
    · rw [readField_action] at hread
      obtain ⟨found, hfound, rfl⟩ := exists_of_mapValue hread
      obtain ⟨hfresh, hfound⟩ := of_readFresh hcolon hfound
      refine ⟨endsAsSkipped_readString.eq_rest hinner hvalue hends hfound, ?_, ?_⟩
      · simp [fieldNames, Fields.holds, valuesOf, hfresh]
      · simp [valuesOf]
    · rw [readField_module] at hread
      obtain ⟨found, hfound, rfl⟩ := exists_of_mapValue hread
      obtain ⟨hfresh, hfound⟩ := of_readFresh hcolon hfound
      have hreader : EndsAsSkipped (readOptional readString) :=
        endsAsSkipped_readOptional endsAsSkipped_readString
      refine ⟨hreader.eq_rest hinner hvalue hends hfound, ?_, ?_⟩
      · simp [fieldNames, Fields.holds, valuesOf, hfresh]
      · simp [valuesOf]
    · rw [readField_config] at hread
      obtain ⟨found, hfound, rfl⟩ := exists_of_mapValue hread
      obtain ⟨hfresh, hfound⟩ := of_readFresh hcolon hfound
      have hreader : EndsAsSkipped (readOptional readBindings) :=
        endsAsSkipped_readOptional endsAsSkipped_readBindings
      refine ⟨hreader.eq_rest hinner hvalue hends hfound, ?_, ?_⟩
      · simp [fieldNames, Fields.holds, valuesOf, hfresh]
      · simp [valuesOf]
    · rw [readField_timestamp] at hread
      obtain ⟨found, hfound, rfl⟩ := exists_of_mapValue hread
      obtain ⟨hfresh, hfound⟩ := of_readFresh hcolon hfound
      refine ⟨endsAsSkipped_readInt64.eq_rest hinner hvalue hends hfound, ?_, ?_⟩
      · simp [fieldNames, Fields.holds, valuesOf, hfresh]
      · intro other hother
        rw [valuesOf_cons_self] at hother
        rw [List.mem_singleton.1 hother]
        exact ⟨found, isInteger_of_readInt64 hinner hvalue hends hfound⟩
  · rw [readField_unknown hname hcolon, skipValue_append hinner hvalue hends] at hread
    cases hread
    have hother : ∀ field ∈ fieldNames, valuesOf [(name, value)] field = [] := by
      intro field hfield
      apply valuesOf_cons_of_ne
      rintro rfl
      exact hname hfield
    refine ⟨rfl, fun field hfield => ?_, ?_⟩
    · rw [hother field hfield]
      rfl
    · rw [hother "timestamp" (by decide)]
      exact List.forall_mem_nil _

end Accounts

/-- The fields of a request are not empty where they must not be. -/
theorem holds_of_complete {last : Fields} {request : Request}
    (hcomplete : last.complete = .ok request) :
    last.holds "action" = true ∧ last.holds "timestamp" = true := by
  obtain ⟨action, moduleName, config, timestamp⟩ := last
  cases action with
  | none => cases hcomplete
  | some action =>
      cases timestamp with
      | none => cases hcomplete
      | some timestamp => exact ⟨rfl, rfl⟩

end Fields

section Objects

variable {isFirst : Bool} {fields : Fields} {request : Request} {name : String}
  {value bytes behind rest : List UInt8} {members : List (String × List UInt8)}

theorem exists_of_readObject_member (hname : readName isFirst bytes = .ok (some name, behind))
    (hread : readObject isFirst fields bytes = .ok (request, rest)) :
    ∃ next further, readField fields name behind = .ok (next, further) ∧
      readObject false next further = .ok (request, rest) := by
  cases hfield : readField fields name behind with
  | error fault =>
      rw [readObject.eq_def, hname] at hread
      dsimp only at hread
      rw [hfield] at hread
      cases hread
  | ok found =>
      obtain ⟨next, further⟩ := found
      rw [readObject_of_member hname hfield] at hread
      exact ⟨next, further, rfl, hread⟩

theorem complete_of_readObject
    (hread : readObject isFirst fields (ascii '\x7d' :: rest) = .ok (request, behind)) :
    fields.complete = .ok request := by
  rw [readObject_of_closing (readName_closing isFirst rest)] at hread
  cases hcomplete : fields.complete with
  | error fault =>
      rw [hcomplete] at hread
      cases hread
  | ok found =>
      rw [hcomplete] at hread
      cases hread
      rfl

/-- Where the first of several members is read, the reader goes on with the others. -/
theorem exists_accounts_of_isMember (hmember : IsMember name value bytes)
    (hends : EndsNumber rest)
    (hread : readObject isFirst fields ((if isFirst then [] else [ascii ',']) ++ (bytes ++ rest)) =
      .ok (request, behind)) :
    ∃ next, fields.Accounts [(name, value)] next ∧
      readObject false next rest = .ok (request, behind) := by
  obtain ⟨between, inner, after, hbetween, hinner, hafter, hname⟩ := hmember.exists_readName
  obtain ⟨next, further, hfield, hrest⟩ := exists_of_readObject_member (hname isFirst rest) hread
  obtain ⟨rfl, haccounts⟩ := Fields.accounts_of_readField hmember.isValue hbetween hinner
    (hends.append_blank hafter) hfield
  rw [readObject_append hafter] at hrest
  exact ⟨next, haccounts, hrest⟩

/-- An object that is read at all has led to the fields of the request. -/
theorem exists_accounts_of_isMembers (hmembers : IsMembers members bytes)
    (hread : readObject isFirst fields
        ((if isFirst then [] else [ascii ',']) ++ (bytes ++ ascii '\x7d' :: rest)) =
      .ok (request, behind)) :
    ∃ last, last.complete = .ok request ∧ fields.Accounts members last := by
  induction hmembers generalizing isFirst fields with
  | last hmember =>
      obtain ⟨next, haccounts, hrest⟩ := exists_accounts_of_isMember hmember
        (Bracket.object.endsNumber_closing rest) hread
      exact ⟨next, complete_of_readObject hrest, haccounts⟩
  | more hmember _ ih =>
      rw [List.append_assoc] at hread
      obtain ⟨next, haccounts, hrest⟩ := exists_accounts_of_isMember hmember
        (endsNumber_comma _) hread
      obtain ⟨last, hcomplete, hothers⟩ := ih hrest
      exact ⟨last, hcomplete, haccounts.cons hothers⟩

end Objects

/-! ## A crowded text -/

/-- The bytes of a string whose characters need no escape. -/
def quoted (text : String) : List UInt8 :=
  ascii '"' :: (bytesOf text.toList ++ [ascii '"'])

/-- A request for a reboot, from shortly before the beginning of 1970. -/
def early : Request where
  action := "reboot"
  config := some (.ofList [("k", "b")])
  timestamp := -7

/-- A list with an object in it, where half a pair of surrogates is the name of a number. -/
def seen : List UInt8 :=
  Text.Utf8.encode "[ \x7b\"\\ud800\":1.5e+3\x7d]"

/-- A configuration in which a name comes twice. -/
def twofold : List UInt8 :=
  Text.Utf8.encode "\x7b\"k\":\"a\", \"k\":\"b\"\x7d"

theorem isBlank_space : IsBlank [0x20] :=
  List.forall_mem_singleton.2 rfl

theorem isValue_seen : IsValue seen := by
  have hnone : IsBlank [] := List.forall_mem_nil _
  have hhalf : IsCode [ascii 'd', ascii '8', ascii '0', ascii '0'] 0xD800 :=
    .of (a := 13) (b := 8) (c := 0) (d := 0) rfl rfl rfl rfl
  have hfive : IsDigits [] := List.forall_mem_nil _
  have hnumber : IsNumber ([] ++ ([ascii '1'] ++ ([ascii '.', ascii '5'] ++
      ascii 'e' :: ([ascii '+'] ++ [ascii '3'])))) :=
    .of (by decide) (.digits rfl (by decide) hfive) (.point rfl hfive)
      (.power (.inl rfl) (by decide) rfl hfive)
  have hobject : IsValue (ascii '\x7b' :: _ ++ [ascii '\x7d']) :=
    .full (.last (.member hnone (.code hhalf .nil) hnone hnone (.scalar (.number hnumber)) hnone))
  have hlist : IsValue _ := .full (.last (.element isBlank_space hobject hnone))
  exact Eq.subst (motive := IsValue) (by decide +kernel) hlist

theorem isMember_plain (name : String) {value : List UInt8}
    (hname : name.toList.all standsForItself = true) (hvalue : IsValue value) :
    IsMember name value (quoted name ++ ascii ':' :: value) := by
  have hnone : IsBlank [] := List.forall_mem_nil _
  have hmember := IsMember.of hnone (.of_plain hname) hnone hnone hvalue hnone
  rw [List.append_nil] at hmember
  simpa [quoted] using hmember

theorem isString_quoted (text : String) (htext : text.toList.all standsForItself = true) :
    IsString (quoted text) text :=
  .of (.of_plain htext)

theorem isObject_twofold : IsObject [("k", quoted "a"), ("k", quoted "b")] twofold := by
  have hname : Spells (bytesOf "k".toList) "k".toList := .of_plain (by decide)
  have hnone : IsBlank [] := List.forall_mem_nil _
  have hfirst := isMember_plain "k" (by decide)
    (isString_quoted "a" (by decide)).isValue
  have hsecond := IsMember.of isBlank_space hname hnone hnone
    (isString_quoted "b" (by decide)).isValue hnone
  exact Eq.subst (motive := IsObject _) (by decide +kernel) (.full (.more hfirst (.last hsecond)))

theorem isMap_twofold : IsMap twofold (.ofList [("k", "a"), ("k", "b")]) :=
  .of isObject_twofold
    (.cons ⟨rfl, isString_quoted "a" (by decide)⟩
      (.cons ⟨rfl, isString_quoted "b" (by decide)⟩ .nil))
    (Bindings.find?_ofList _)

theorem isValue_reboot : IsValue (quoted "reboot") :=
  (isString_quoted "reboot" (by decide)).isValue

theorem isValue_seven : IsValue [ascii '-', ascii '7'] := by
  have hnumber : IsNumber ([ascii '-'] ++ ([ascii '7'] ++ ([] ++ []))) :=
    .of (by decide) (.digits rfl (by decide) (List.forall_mem_nil _)) .none .none
  exact .scalar (.number hnumber)

/-- The name of a field may be escaped, and a blank may stand in front of its colon. -/
theorem isMember_escaped : IsMember "action" (quoted "reboot")
    (Text.Utf8.encode "\"\\u0061ction\" :\"reboot\"") := by
  have hnone : IsBlank [] := List.forall_mem_nil _
  have hcode : IsCode [ascii '0', ascii '0', ascii '6', ascii '1'] 97 :=
    .of (a := 0) (b := 0) (c := 6) (d := 1) rfl rfl rfl rfl
  have htail : Spells (bytesOf "ction".toList) "ction".toList := .of_plain (by decide)
  have hname : Spells _ "action".toList := .code (c := 'a') hcode htail
  have hmember := IsMember.of hnone hname isBlank_space hnone isValue_reboot hnone
  exact Eq.subst (motive := IsMember _ _) (by decide +kernel) hmember

/-- The request among other members, with an escaped name and some blanks. -/
def crowded : List UInt8 :=
  Text.Utf8.encode
    ("\x7b\"seen\":[ \x7b\"\\ud800\":1.5e+3\x7d],\"config\":\x7b\"k\":\"a\", \"k\":\"b\"\x7d," ++
      "\"\\u0061ction\" :\"reboot\",\"timestamp\":-7\x7d\n")

/-- The same request alone. -/
def alone : List UInt8 :=
  Text.Utf8.encode
    ("\x7b\"action\":\"reboot\",\"timestamp\":-7,\"config\":\x7b\"k\":\"a\", \"k\":\"b\"\x7d\x7d")

/-- A request that leaves out its module twice. -/
def doubled : List UInt8 :=
  Text.Utf8.encode
    "\x7b\"module\":null,\"action\":\"reboot\",\"module\":null,\"timestamp\":-7\x7d"

theorem isObjectText_crowded : IsObjectText [("seen", seen), ("config", twofold),
    ("action", quoted "reboot"), ("timestamp", [ascii '-', ascii '7'])] crowded := by
  have hseen := isMember_plain "seen" (by decide) isValue_seen
  have hconfig := isMember_plain "config" (by decide) isObject_twofold.isValue
  have htime := isMember_plain "timestamp" (by decide) isValue_seven
  have htext := IsObjectText.of (List.forall_mem_nil _)
    (.full (.more hseen (.more hconfig (.more isMember_escaped (.last htime)))))
    (List.forall_mem_singleton.2 rfl : IsBlank [0x0A])
  exact Eq.subst (motive := IsObjectText _) (by decide +kernel) htext

theorem isObjectText_alone : IsObjectText [("action", quoted "reboot"),
    ("timestamp", [ascii '-', ascii '7']), ("config", twofold)] alone := by
  have haction := isMember_plain "action" (by decide) isValue_reboot
  have htime := isMember_plain "timestamp" (by decide) isValue_seven
  have hconfig := isMember_plain "config" (by decide) isObject_twofold.isValue
  have htext := IsObjectText.of (List.forall_mem_nil _)
    (.full (.more haction (.more htime (.last hconfig)))) (List.forall_mem_nil _)
  exact Eq.subst (motive := IsObjectText _) (by decide +kernel) htext

theorem isObjectText_doubled : IsObjectText [("module", ascii 'n' :: nullTail),
    ("action", quoted "reboot"), ("module", ascii 'n' :: nullTail),
    ("timestamp", [ascii '-', ascii '7'])] doubled := by
  have hnull : IsValue (ascii 'n' :: nullTail) := .scalar (.word (by decide))
  have hmodule := isMember_plain "module" (by decide) hnull
  have haction := isMember_plain "action" (by decide) isValue_reboot
  have htime := isMember_plain "timestamp" (by decide) isValue_seven
  have htext := IsObjectText.of (List.forall_mem_nil _)
    (.full (.more hmodule (.more haction (.more hmodule (.last htime))))) (List.forall_mem_nil _)
  exact Eq.subst (motive := IsObjectText _) (by decide +kernel) htext

/-! ## Whole texts -/

section Texts

variable {members : List (String × List UInt8)} {text bytes : List UInt8} {request : Request}

theorem ofJson_of_opening (hspace : skipSpace text = ascii '\x7b' :: bytes) :
    ofJson text = (readObject true {} bytes).bind fun read =>
      (readEnd read.2).map fun _ => read.1 := by
  rw [ofJson, hspace]
  dsimp only
  rw [if_pos rfl]
  cases readObject true {} bytes with
  | error fault => rfl
  | ok read =>
      show (readEnd read.2).bind _ = (readEnd read.2).map _
      cases readEnd read.2 <;> rfl

theorem readEnd_of_isBlank {blank : List UInt8} (hblank : IsBlank blank) :
    readEnd blank = .ok () := by
  have hspace := skipSpace_append hblank []
  rw [List.append_nil] at hspace
  rw [readEnd, hspace]
  rfl

theorem skipSpace_object {before after : List UInt8} (hbefore : IsBlank before) :
    skipSpace (before ++ (ascii '\x7b' :: (bytes ++ [ascii '\x7d']) ++ after)) =
      ascii '\x7b' :: (bytes ++ ascii '\x7d' :: after) := by
  rw [skipSpace_append hbefore, List.cons_append, List.append_assoc]
  exact skipSpace_of_not_space rfl _

theorem Describes.exists_awaits (hdescribes : Describes members request) :
    ∃ last, Fields.Awaits {} members last ∧ last.complete = .ok request := by
  obtain ⟨⟨action, haction, hmeaning⟩, hmodule, hconfig, timestamp, htimestamp, hnumber⟩ :=
    hdescribes
  obtain ⟨moduleName, hmoduleName, hmodule⟩ := hmodule.exists_fills
  obtain ⟨config, hconfigured, hconfig⟩ := hconfig.exists_fills
  refine ⟨⟨some request.action, moduleName, config, some request.timestamp⟩, ⟨?_, hmoduleName,
    hconfigured, ?_⟩, ?_⟩
  · rw [haction]
    exact .value rfl hmeaning
  · rw [htimestamp]
    exact .value rfl hnumber
  · rw [Fields.complete, hmodule, hconfig]

theorem Describes.of_same {others : List (String × List UInt8)}
    (hdescribes : Describes members request)
    (hsame : ∀ name ∈ fieldNames, valuesOf others name = valuesOf members name) :
    Describes others request := by
  obtain ⟨haction, hmodule, hconfig, htimestamp⟩ := hdescribes
  rw [← hsame _ (by decide)] at haction hmodule hconfig htimestamp
  exact ⟨haction, hmodule, hconfig, htimestamp⟩

/-- A text whose fields describe a request is read as this request. -/
theorem ofJson_of_describes (htext : IsObjectText members text)
    (hdescribes : Describes members request) : ofJson text = .ok request := by
  obtain ⟨last, hawaits, hcomplete⟩ := hdescribes.exists_awaits
  cases htext with
  | @of before object after hbefore hobject hafter =>
      cases hobject with
      | empty =>
          obtain ⟨value, hvalue, -⟩ := hdescribes.action
          cases hvalue
      | @full _ bytes hmembers =>
          have hread : readObject true {} (bytes ++ ascii '\x7d' :: after) =
              last.complete.map fun request => (request, after) :=
            readObject_of_awaits hmembers hawaits after
          rw [ofJson_of_opening (skipSpace_object hbefore), hread, hcomplete]
          show (readEnd after).map _ = _
          rw [readEnd_of_isBlank hafter]
          rfl

/-- A text that is read at all has led to the fields of the request. -/
theorem exists_accounts_of_ofJson (htext : IsObjectText members text)
    (hread : ofJson text = .ok request) :
    ∃ last, last.complete = .ok request ∧ Fields.Accounts {} members last := by
  have hobject : ∀ {bytes : List UInt8}, skipSpace text = ascii '\x7b' :: bytes →
      ∃ behind, readObject true {} bytes = .ok (request, behind) := by
    intro bytes hspace
    rw [ofJson_of_opening hspace] at hread
    cases hobject : readObject true {} bytes with
    | error fault =>
        rw [hobject] at hread
        cases hread
    | ok read =>
        obtain ⟨found, behind⟩ := read
        rw [hobject] at hread
        have hend : (readEnd behind).map (fun _ => found) = .ok request := hread
        cases hafter : readEnd behind with
        | error fault =>
            rw [hafter] at hend
            cases hend
        | ok =>
            rw [hafter] at hend
            cases hend
            exact ⟨behind, rfl⟩
  cases htext with
  | @of before object after hbefore hmembers hafter =>
      cases hmembers with
      | @empty blank hblank =>
          obtain ⟨behind, hclosing⟩ := hobject (skipSpace_object hbefore)
          rw [readObject_append hblank] at hclosing
          exact ⟨{}, complete_of_readObject hclosing, .nil {}⟩
      | full hmembers =>
          obtain ⟨behind, hmember⟩ := hobject (skipSpace_object hbefore)
          exact exists_accounts_of_isMembers hmembers hmember

/-- A text with a defect is refused. -/
theorem exists_fault_of_isDefective (htext : IsObjectText members text)
    (hdefective : IsDefective members) : ∃ fault, ofJson text = .error fault := by
  cases hread : ofJson text with
  | error fault => exact ⟨fault, rfl⟩
  | ok request =>
      exfalso
      obtain ⟨last, hcomplete, haccounts⟩ := exists_accounts_of_ofJson htext hread
      obtain ⟨haction, htimestamp⟩ := Fields.holds_of_complete hcomplete
      cases hdefective with
      | @repeated name hname hrepeated =>
          have hone := haccounts.holds name hname
          have hmost := Bool.toNat_le (last.holds name)
          omega
      | noAction hmissing =>
          have hone := haccounts.holds "action" (by decide)
          rw [haction, hmissing] at hone
          exact absurd hone (by decide)
      | noTimestamp hmissing =>
          have hone := haccounts.holds "timestamp" (by decide)
          rw [htimestamp, hmissing] at hone
          exact absurd hone (by decide)
      | noInteger hvalue hnone =>
          obtain ⟨number, hinteger⟩ := haccounts.fits _ hvalue
          exact hnone _ hinteger
      | outside hvalue hinteger houtside =>
          obtain ⟨number, hfits⟩ := haccounts.fits _ hvalue
          rw [hinteger.eq hfits] at houtside
          exact not_isOutside number houtside

/-- Of an object text, the fields alone decide on the request. Where each has the values that it
must have, the request is the one that they describe, and the same as that of any other text with
the same values of fields: in another order of members, among other members or with other blanks. Of
several equal names in a configuration the last decides (`IsMap`). Where a field is repeated, the
action or the time is missing or the time does not fit in 64 bits, there is no request. -/
theorem ofJson_of_isObjectText (htext : IsObjectText members text) :
    (∀ request, Describes members request → ofJson text = .ok request ∧
      ∀ others other, IsObjectText others other →
        (∀ name ∈ fieldNames, valuesOf others name = valuesOf members name) →
          ofJson other = .ok request) ∧
      (IsDefective members → ∃ fault, ofJson text = .error fault) := by
  refine ⟨fun request hdescribes => ⟨ofJson_of_describes htext hdescribes, ?_⟩,
    exists_fault_of_isDefective htext⟩
  intro others other hother hsame
  exact ofJson_of_describes hother (hdescribes.of_same hsame)

end Texts

/-- Other members, an escaped name, a name that comes twice in the configuration, another order and
other blanks do not matter. A field that comes twice does, even if it says nothing. -/
theorem ofJson_crowded :
    IsObjectText [("seen", seen), ("config", twofold), ("action", quoted "reboot"),
        ("timestamp", [ascii '-', ascii '7'])] crowded ∧
      ofJson crowded = .ok early ∧ ofJson alone = .ok early ∧
        ∃ fault, ofJson doubled = .error fault := by
  have hlast : Bindings.ofList [("k", "a"), ("k", "b")] = .ofList [("k", "b")] := by decide
  have hdescribes : Describes [("seen", seen), ("config", twofold), ("action", quoted "reboot"),
      ("timestamp", [ascii '-', ascii '7'])] early :=
    ⟨⟨_, rfl, isString_quoted "reboot" (by decide)⟩, .absent,
      .present (.value (hlast ▸ isMap_twofold)), ⟨_, rfl, rfl⟩⟩
  obtain ⟨hcrowded, hsame⟩ := (ofJson_of_isObjectText isObjectText_crowded).1 early hdescribes
  refine ⟨isObjectText_crowded, hcrowded, hsame _ _ isObjectText_alone ?_, ?_⟩
  · decide
  · apply (ofJson_of_isObjectText isObjectText_doubled).2
    exact .repeated (by decide : "module" ∈ fieldNames) (by decide)

end Upkeep.Request
