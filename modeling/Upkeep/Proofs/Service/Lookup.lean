/-
# Which job a question is about

A question can name a job in two places, in its query and in a header. A name is what a text holds
between its blanks; a text that is blank throughout names nothing. `soughtId` puts the two places
together as they are meant: the name in the query, or else the one in the header.

The service does the two steps the other way round. It first decides for a place, and only then
looks whether what it found there is blank. So a blank parameter in the query, although it names
nothing, keeps a name in the header from being seen, and the question is taken for one that names no
job. This is the only case in which the service and `soughtId` part, and there is always a store to
which the difference shows.
-/

import Upkeep.Service.Inquiry

namespace Upkeep.Service

/-! ## Names and places -/

/-- The identifier that a text gives: what it holds between its blanks, if there is anything. -/
def idOf? (text : String) : Option JobId :=
  if Text.trim text = "" then none else some ⟨Text.trim text⟩

/-- What a question gives as an identifier in its query. -/
def queryText? (message : Http.Request) : Option String :=
  Http.Query.single? message.query jobIdField

/-- What a question gives as an identifier in its header. -/
def headerText? (message : Http.Request) : Option String :=
  message.headers.text? jobIdHeader

/-- The identifier that a question is meant to name: the one in its query, or else the one in its
header. -/
def soughtId (message : Http.Request) : Option JobId :=
  ((queryText? message).bind idOf?).or ((headerText? message).bind idOf?)

/-- The query of a question gives an identifier that is blank. -/
def BlankQuery (message : Http.Request) : Prop :=
  ∃ text, queryText? message = some text ∧ idOf? text = none

/-- The header of a question names a job, but its query gives an identifier, which is blank. -/
structure HidesHeader (message : Http.Request) : Prop where
  blank : BlankQuery message
  named : ((headerText? message).bind idOf?).isSome

/-- The service first decides for a place, and then looks what it names. -/
theorem requestedId_eq (message : Http.Request) :
    requestedId message = ((queryText? message).or (headerText? message)).bind idOf? := by
  rw [requestedId]
  generalize hstated : (queryText? message).or (headerText? message) = stated
  rw [queryText?, headerText?] at hstated
  rw [hstated]
  cases stated with
  | none => rfl
  | some text =>
      by_cases hblank : Text.trim text = ""
      · simp [idOf?, hblank]
      · simp [idOf?, hblank]

section Question

variable {message : Http.Request}

theorem requestedId_of_blankQuery (hblank : BlankQuery message) : requestedId message = none := by
  obtain ⟨text, htext, hnone⟩ := hblank
  rw [requestedId_eq, htext, Option.some_or, Option.bind_some, hnone]

/-- Unless a blank parameter hides a header, the service takes the identifier that is meant. -/
theorem requestedId_of_not_hidesHeader (hplain : ¬HidesHeader message) :
    requestedId message = soughtId message := by
  rw [requestedId_eq, soughtId]
  cases hquery : queryText? message with
  | none => rfl
  | some text =>
      cases hid : idOf? text with
      | some id => simp [hid]
      | none =>
          have hheader : (headerText? message).bind idOf? = none :=
            Option.not_isSome_iff_eq_none.1 fun hnamed => hplain ⟨⟨text, hquery, hid⟩, hnamed⟩
          simp [hid, hheader]

/-- What is hidden is what is meant. -/
theorem soughtId_of_hidesHeader (hhides : HidesHeader message) :
    ∃ id, soughtId message = some id ∧ (headerText? message).bind idOf? = some id := by
  obtain ⟨⟨text, htext, hnone⟩, hnamed⟩ := hhides
  obtain ⟨id, hid⟩ := Option.isSome_iff_exists.1 hnamed
  refine ⟨id, ?_, hid⟩
  rw [soughtId, htext, hid]
  simp [hnone]

end Question

/-! ## Answers -/

/-- The answer that shows a job. -/
def shown (now : Timestamp) (job : Job) : Http.Response :=
  .json job.httpStatus (job.view now)

/-- The answer about the job of an identifier, or without one about the job that holds the slot, or
else the one that ended last. -/
def answerAbout (store : Store) (now : Timestamp) : Option JobId → Http.Response
  | some id => ((store.find? id).map (shown now)).getD (Absence.notFound id).response
  | none => ((store.current.or store.latest?).map (shown now)).getD Absence.noJob.response

theorem answerStatus_eq (store : Store) (now : Timestamp) (message : Http.Request) :
    answerStatus store now message = answerAbout store now (requestedId message) := by
  unfold answerStatus requestedJob answerAbout
  cases requestedId message with
  | some id =>
      dsimp only
      cases store.find? id <;> rfl
  | none =>
      dsimp only
      cases store.current.or store.latest? <;> rfl

/-- That a job is not there does not read as that there is none at all. -/
theorem response_notFound_ne (id : JobId) :
    (Absence.notFound id).response ≠ Absence.noJob.response := by
  intro hsame
  have hstart := congrArg (fun response => response.body.toList.take 16) hsame
  simp [Absence.response, Http.Response.json, Json.Value.render, Json.Value.write,
    Json.Value.writeMembers, Json.writeText, Json.escaped] at hstart

/-- A store without jobs tells the question about any one job from the question about none. -/
theorem answerAbout_ne (now : Timestamp) (maxHistory : Nat) (id : JobId) :
    answerAbout ⟨maxHistory, none, []⟩ now (some id) ≠
      answerAbout ⟨maxHistory, none, []⟩ now none :=
  response_notFound_ne id

/-- How a service resolves a question. -/
structure ResolvesQuestion (message : Http.Request) : Prop where
  /-- The job that is meant is the one that is shown, unless a blank parameter hides a header. -/
  meant : (∀ store now, answerStatus store now message =
    answerAbout store now (soughtId message)) ↔ ¬HidesHeader message
  /-- A blank parameter makes it a question that names no job. -/
  blank : BlankQuery message → ∀ store now, answerStatus store now message =
    answerAbout store now none
  /-- To leave a blank parameter out makes no difference, unless it hides a header. -/
  omitted : BlankQuery message → ∀ other, queryText? other = none →
    headerText? other = headerText? message →
      ((∀ store now, answerStatus store now message = answerStatus store now other) ↔
        ¬HidesHeader message)

section Resolution

variable {message : Http.Request}

theorem answerStatus_of_blankQuery (hblank : BlankQuery message) (store : Store)
    (now : Timestamp) : answerStatus store now message = answerAbout store now none := by
  rw [answerStatus_eq, requestedId_of_blankQuery hblank]

/-- A hidden header is missed where there is no job at all: the answer says so, and not that the
named job is not there. -/
theorem answerStatus_ne_of_hidesHeader (hhides : HidesHeader message) (now : Timestamp)
    (maxHistory : Nat) :
    answerStatus ⟨maxHistory, none, []⟩ now message ≠
      answerAbout ⟨maxHistory, none, []⟩ now (soughtId message) := by
  obtain ⟨id, hsought, -⟩ := soughtId_of_hidesHeader hhides
  rw [answerStatus_of_blankQuery hhides.blank, hsought]
  exact (answerAbout_ne now maxHistory id).symm

theorem answerStatus_iff_not_hidesHeader :
    (∀ store now, answerStatus store now message =
      answerAbout store now (soughtId message)) ↔ ¬HidesHeader message := by
  constructor
  · intro hanswers hhides
    exact answerStatus_ne_of_hidesHeader hhides .epoch 0 (hanswers ..)
  · intro hplain store now
    rw [answerStatus_eq, requestedId_of_not_hidesHeader hplain]

/-- A question without the blank parameter is answered by its header, that is, as it is meant. -/
theorem answerStatus_of_omitted (hblank : BlankQuery message) {other : Http.Request}
    (homitted : queryText? other = none) (hheader : headerText? other = headerText? message)
    (store : Store) (now : Timestamp) :
    answerStatus store now other = answerAbout store now (soughtId message) := by
  obtain ⟨text, htext, hnone⟩ := hblank
  rw [answerStatus_eq, requestedId_eq, homitted, hheader, soughtId, htext, Option.bind_some, hnone]
  rfl

end Resolution

/-- The service shows the job that a question is meant to be about, or says that it is not there,
for every store and every question but those whose query hides the header; and those it answers as
if they named no job. -/
theorem resolvesQuestion_of_message (message : Http.Request) : ResolvesQuestion message where
  meant := answerStatus_iff_not_hidesHeader
  blank := answerStatus_of_blankQuery
  omitted hblank other homitted hheader := by
    simp only [answerStatus_of_omitted hblank homitted hheader]
    exact answerStatus_iff_not_hidesHeader

/-- A question with a header that names a job. -/
def askedFor (target : String) : Http.Request :=
  { method := "GET", target, headers := [(jobIdHeader, Text.Utf8.encode "zz")] }

theorem hidesHeader_askedFor : HidesHeader (askedFor "/job/status?job_id=%20") where
  blank := ⟨" ", by decide +kernel, by decide +kernel⟩
  named := by decide +kernel

/-- Where no job was ever run, a header that names one is heard without a parameter, and not
behind a blank one. -/
theorem header_not_heard :
    let store : Store := ⟨Store.defaultMaxHistory, none, []⟩
    let message := askedFor "/job/status?job_id=%20"
    soughtId message = some ⟨"zz"⟩ ∧
      answerStatus store .epoch message = Absence.noJob.response ∧
        answerStatus store .epoch message ≠ answerAbout store .epoch (soughtId message) ∧
          answerStatus store .epoch (askedFor "/job/status") =
            (Absence.notFound ⟨"zz"⟩).response := by
  intro store message
  have hsought : soughtId message = some ⟨"zz"⟩ := by decide +kernel
  have hquery : queryText? (askedFor "/job/status") = none := by decide +kernel
  have homitted : answerStatus store .epoch (askedFor "/job/status") =
      answerAbout store .epoch (soughtId message) :=
    answerStatus_of_omitted hidesHeader_askedFor.blank hquery rfl store .epoch
  refine ⟨hsought, answerStatus_of_blankQuery hidesHeader_askedFor.blank .., ?_, ?_⟩
  · exact answerStatus_ne_of_hidesHeader hidesHeader_askedFor .epoch _
  · rw [homitted, hsought]
    rfl

end Upkeep.Service
