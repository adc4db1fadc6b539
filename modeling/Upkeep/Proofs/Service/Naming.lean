/-
# A fresh identifier names one job

The service hands an identifier out in a header, and a client gives it back in a query or in a
header. On the way it is encoded, cut out of other parameters, decoded and trimmed. None of this
touches an identifier that the service made itself, for none of its characters means anything but
itself there, so a question with it is about the very job that it was made for.

Different jobs have different identifiers as far as their sources allow: the random bytes, or else
the time of day, can be read off an identifier, and so can the kind of source that it came from.
-/

import Upkeep.Proofs.Http.Query
import Upkeep.Proofs.JobId
import Upkeep.Proofs.Service.Lookup
import Upkeep.Service.Router

namespace Upkeep.Service

/-- A question is taken for one about the job of an identifier. -/
structure Seeks (message : Http.Request) (id : JobId) : Prop where
  requested : requestedId message = some id
  answered : ∀ store now, answerStatus store now message = answerAbout store now (some id)

/-- An identifier that is read back as it is, wherever it is put. -/
structure ReadsBack (id : JobId) : Prop where
  nonempty : id.text ≠ ""
  unblank : ∀ c ∈ id.text.toList, Text.isBlank c = false
  /-- It can be the value of a header, and responses have it there. -/
  sent : id.CanBeSent ∧ ∀ response, withJobId response id = response.withHeader jobIdHeader id.text
  /-- Written into a query as it is, it is what the query gives, whatever other parameters there
  are. -/
  inQuery : ∀ (message : Http.Request) (before behind : List String),
    (∀ part ∈ before ++ behind, Http.Query.IsOther jobIdField part) →
      message.query = "&".intercalate (before ++ (jobIdField ++ "=" ++ id.text) :: behind) →
        queryText? message = some id.text
  /-- This query can stand behind the path. -/
  inTarget : ∀ message : Http.Request,
    message.target = Route.status.path ++ "?" ++ (jobIdField ++ "=" ++ id.text) →
      queryText? message = some id.text
  /-- Its bytes in a header are what the header gives. -/
  inHeader : ∀ message : Http.Request,
    (message.headers.values jobIdHeader).head? = some (Text.Utf8.encode id.text) →
      headerText? message = some id.text
  /-- A question with it, in the query or else in the header, is about its job. -/
  seeks : ∀ message : Http.Request,
    (queryText? message).or (headerText? message) = some id.text → Seeks message id

section Plain

variable {id : JobId} (hplain : ∀ c ∈ id.text.toList, JobId.IsPlain c)
include hplain

theorem unescaped_of_plain : Http.Query.Unescaped id.text := by
  intro c hc
  have hspecial := (hplain c hc).2.1
  simp only [List.mem_cons, List.not_mem_nil, or_false, not_or] at hspecial
  exact ⟨(hplain c hc).1, hspecial.1, hspecial.2.1⟩

/-- The parameter with the identifier is one piece, in a query and in a target. -/
theorem not_mem_parameter : '&' ∉ (jobIdField ++ "=" ++ id.text).toList ∧
    '#' ∉ (jobIdField ++ "=" ++ id.text).toList := by
  have hfield : '&' ∉ (jobIdField ++ "=").toList ∧ '#' ∉ (jobIdField ++ "=").toList := by decide
  have hampersand : '&' ∉ id.text.toList := fun hc => (hplain '&' hc).2.1 (by decide)
  have hmark : '#' ∉ id.text.toList := fun hc => (hplain '#' hc).2.1 (by decide)
  rw [String.toList_append, List.mem_append, List.mem_append]
  exact ⟨not_or.2 ⟨hfield.1, hampersand⟩, not_or.2 ⟨hfield.2, hmark⟩⟩

theorem queryText?_of_plain {message : Http.Request} {before behind : List String}
    (hothers : ∀ part ∈ before ++ behind, Http.Query.IsOther jobIdField part)
    (hquery : message.query =
      "&".intercalate (before ++ (jobIdField ++ "=" ++ id.text) :: behind)) :
    queryText? message = some id.text := by
  have hname : Http.Query.Unescaped jobIdField := by decide
  rw [queryText?, hquery]
  exact Http.Query.single?_intercalate hname (by decide) (not_mem_parameter hplain).1
    (unescaped_of_plain hplain) hothers

theorem idOf?_of_plain (hnonempty : id.text ≠ "") : idOf? id.text = some id := by
  rw [idOf?, JobId.trim_of_plain hplain, if_neg hnonempty]

theorem seeks_of_plain (hnonempty : id.text ≠ "") {message : Http.Request}
    (hgiven : (queryText? message).or (headerText? message) = some id.text) :
    Seeks message id := by
  have hrequested : requestedId message = some id := by
    rw [requestedId_eq, hgiven, Option.bind_some, idOf?_of_plain hplain hnonempty]
  refine ⟨hrequested, fun store now => ?_⟩
  rw [answerStatus_eq, hrequested]

/-- An identifier of plain characters is read back. -/
theorem readsBack_of_plain (hnonempty : id.text ≠ "") : ReadsBack id where
  nonempty := hnonempty
  unblank c hc := (hplain c hc).2.2.1
  sent := ⟨JobId.canBeSent_of_plain hplain, fun _ => if_pos (JobId.canBeSent_of_plain hplain)⟩
  inQuery _ _ _ hothers hquery := queryText?_of_plain hplain hothers hquery
  inTarget message htarget := by
    have hsplit : message.target = "/" ++ "job/status" ++ "?" ++ (jobIdField ++ "=" ++ id.text) :=
      htarget
    have hquery : message.query = "&".intercalate ([] ++ [jobIdField ++ "=" ++ id.text]) := by
      simpa using Http.Request.query_of_target hsplit (by decide) (by decide)
        (not_mem_parameter hplain).2
    exact queryText?_of_plain hplain (by simp) hquery
  inHeader message hheader := by
    rw [headerText?, Http.Headers.text?, hheader, Option.bind_some,
      JobId.readable?_of_plain hplain]
  seeks _ hgiven := seeks_of_plain hplain hnonempty hgiven

end Plain

/-- Fresh identifiers are different if the random bytes that they are made from are, or without
random bytes if the times are, none of which lies before 1970. No identifier of one kind is one of
the other kind. And every one of them is read back, wherever it is put. -/
theorem readsBack_of_generate :
    (∀ (bytes others : Vector UInt8 JobId.randomBytes) (now later : Int),
      JobId.generate (some bytes) now = JobId.generate (some others) later ↔ bytes = others) ∧
    (∀ now later : Int, 0 ≤ now → 0 ≤ later →
      (JobId.generate none now = JobId.generate none later ↔ now = later)) ∧
    (∀ (bytes : Vector UInt8 JobId.randomBytes) (now later : Int),
      JobId.generate (some bytes) now ≠ JobId.generate none later) ∧
    ∀ (drawn : Option (Vector UInt8 JobId.randomBytes)) (now : Int),
      ReadsBack (JobId.generate drawn now) := by
  refine ⟨fun bytes others now later => ?_, fun now later hnow hlater => ?_,
    fun bytes now later => ?_, fun drawn now => ?_⟩
  · simp [JobId.generate_eq_generate_iff]
  · have hnanos : now.toNat = later.toNat ↔ now = later := by omega
    simpa [JobId.generate_eq_generate_iff] using hnanos
  · simp [JobId.generate_eq_generate_iff]
  · exact readsBack_of_plain (fun c hc => (JobId.inFresh_of_mem_generate hc).isPlain)
      (JobId.text_generate_ne_empty drawn now)

end Upkeep.Service
