/-
# Questions to the service

How a job is doing, and whether the service is up. A question about a job may name it in the
query or in a header; otherwise it is about the current job, or else the one that ended last.
Neither question changes anything.
-/

import Upkeep.Http.Query
import Upkeep.Http.Request
import Upkeep.Job.View
import Upkeep.Service.Refusal
import Upkeep.Store

namespace Upkeep.Service

/-- The name under which a query gives a job's identifier. -/
def jobIdField : String := "job_id"

/-- The identifier that a question names. The query goes before the header, even where it is
blank; a blank identifier is none. -/
def requestedId (message : Http.Request) : Option JobId :=
  let stated :=
    (Http.Query.single? message.query jobIdField).or (message.headers.text? jobIdHeader)
  ((stated.map Text.trim).filter fun text => !text.isEmpty).map JobId.mk

/-- Why there is no job to be shown. -/
inductive Absence where
  | notFound (id : JobId)
  | noJob
deriving DecidableEq

/-- The message about a job that is not there. -/
def Absence.message : Absence → String
  | .notFound id => "job " ++ id.text ++ " not found"
  | .noJob => "no job has been run"

/-- The answer where there is no job to be shown. -/
def Absence.response (absence : Absence) : Http.Response :=
  .json .notFound <| .object <|
    match absence with
    | .notFound id =>
      [("status", .text "not_found"), ("job_id", id.toJson), ("message", .text absence.message)]
    | .noJob => [("status", .text "no_job"), ("message", .text absence.message)]

/-- The job that a question is about. -/
def requestedJob (store : Store) (message : Http.Request) : Except Absence Job :=
  match requestedId message with
  | some id =>
    match store.find? id with
    | some job => .ok job
    | none => .error (.notFound id)
  | none =>
    match store.current.or store.latest? with
    | some job => .ok job
    | none => .error .noJob

/-- Answers a question about a job. -/
def answerStatus (store : Store) (now : Timestamp) (message : Http.Request) : Http.Response :=
  match requestedJob store message with
  | .ok job => .json job.httpStatus (job.view now)
  | .error absence => absence.response

/-- The name of the service. -/
def serviceName : String := "cloud-update"

/-- Answers the question whether the service is up. -/
def answerHealth (now : Timestamp) : Http.Response :=
  .json .ok (.object [("status", .text "healthy"), ("service", .text serviceName),
    ("timestamp", .text (toString now.seconds))])

end Upkeep.Service
