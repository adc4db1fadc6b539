/-
# Refused requests

Why a request for an action is not acted on, with the answer that each reason gets. The faults
of the request itself are the caller's; a job in progress is a conflict, and a pool that takes no
job means that the service is at its limit. Where a job is concerned, a header names it.
-/

import Upkeep.Http.Response
import Upkeep.Job.Basic
import Upkeep.Pool.Basic
import Upkeep.Service.Freshness
import Upkeep.Time.Rfc3339

namespace Upkeep.Service

/-- The header that names a job. -/
def jobIdHeader : String := "x-job-id"

/-- Why a request is not acted on. -/
inductive Refusal where
  /-- The body could not be read or is too long. -/
  | unreadableBody (reason : String)
  /-- The body is no request. -/
  | invalidJson (fault : Json.Fault)
  | expired (late : Expired)
  | invalidSignature
  | unknownAction (unknown : UnknownAction)
  /-- A job holds the slot. -/
  | jobInProgress (job : Job)
  /-- The slot was taken and given back while the request was judged. -/
  | busy
  /-- The pool does not take the job. -/
  | atCapacity (error : Pool.PoolError) (id : JobId)

/-- The words for a fault in a JSON text. -/
def faultText : Json.Fault → String
  | .malformed => "the text breaks the grammar"
  | .truncated => "the text ends too early"
  | .mismatch cause => cause.message

namespace Refusal

/-- The message about a refused request. -/
def message : Refusal → String
  | .unreadableBody reason => "failed to read request body: " ++ reason
  | .invalidJson fault => "invalid JSON body: " ++ faultText fault
  | .expired late => late.message
  | .invalidSignature => "invalid signature"
  | .unknownAction unknown => unknown.message
  | .jobInProgress job => "job " ++ job.id.text ++ " is already in progress"
  | .busy => "another job is being admitted"
  | .atCapacity error _ => "server at capacity: " ++ error.message

/-- The status of the answer to a refused request. -/
def status : Refusal → Http.Status
  | .unreadableBody _ | .invalidJson _ | .expired _ | .unknownAction _ => .badRequest
  | .invalidSignature => .unauthorized
  | .jobInProgress _ | .busy => .conflict
  | .atCapacity _ _ => .serviceUnavailable

end Refusal

/-- The response with a header that names a job, if the name can be sent in one. -/
def withJobId (response : Http.Response) (id : JobId) : Http.Response :=
  if (Text.Utf8.encode id.text).all Http.isAllowed then response.withHeader jobIdHeader id.text
  else response

/-- The members of the object that names the job in progress. -/
def conflictMembers (job : Job) : List (String × Json.Value) :=
  [("status", .text "job_in_progress"), ("job_id", job.id.toJson), ("action", job.action.toJson),
    ("started", .text job.started.rfc3339Offset),
    ("message", .text "Another job is already in progress")]

/-- The answer to a refused request. -/
def Refusal.response (refusal : Refusal) : Http.Response :=
  match refusal with
  | .jobInProgress job =>
    withJobId (.json refusal.status (.object (conflictMembers job))) job.id
  | .atCapacity _ id => withJobId (.text refusal.status refusal.message) id
  | refusal => .text refusal.status refusal.message

/-- The answer to an accepted request. -/
def acceptance (id : JobId) (action : Action) : Http.Response :=
  withJobId (.json .accepted (.object [("status", .text "accepted"), ("job_id", id.toJson),
    ("action", action.toJson), ("message", .text "Action accepted for processing")])) id

end Upkeep.Service
