/-
# What is shown of a job

The answer to a question about a job: an object with its fields in a fixed order, of which the
end and the reason of failure are left out as long as there are none. The duration is given in
seconds, made from whole milliseconds.
-/

import Upkeep.Decimal.Layout
import Upkeep.Http.Response
import Upkeep.Job.Basic
import Upkeep.Time.Rfc3339

namespace Upkeep.Job

/-- The decimal text of a number of nanoseconds in seconds, from its whole milliseconds. -/
def secondsText (nanos : Nat) : String :=
  Decimal.Layout.data.text (Float.ofNat (nanos / nanosPerMilli) / 1000.0)

/-- The members of the object that shows a job at a moment. -/
def viewMembers (job : Job) (now : Timestamp) : List (String × Json.Value) :=
  [("job_id", job.id.toJson), ("action", job.action.toJson), ("status", .text job.status.word),
    ("started", .text job.started.rfc3339Offset)] ++
  job.ended?.toList.map (fun ended => ("ended", .text ended.rfc3339Offset)) ++
  [("duration", .number (secondsText (job.duration now)))] ++
  job.reason?.toList.map (fun reason => ("error", .text reason))

/-- The object that shows a job at a moment. -/
def view (job : Job) (now : Timestamp) : Json.Value :=
  .object (job.viewMembers now)

/-- The end of a job fixes its duration, so the moment at which it is shown does not matter. -/
theorem view_of_ended {job : Job} {ended : Timestamp} (hended : job.ended? = some ended)
    (now later : Timestamp) : job.view now = job.view later := by
  simp [view, viewMembers, duration, hended]

/-- The status of an answer that shows a job: it tells whether the job is under way, has ended
well, or has failed. -/
def httpStatus (job : Job) : Http.Status :=
  match job.status with
  | .pending | .running => .accepted
  | .completed => .ok
  | .failed => .internalServerError

end Upkeep.Job
