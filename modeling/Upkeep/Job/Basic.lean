/-
# Jobs

A job is one attempt at an action. It waits, runs, and ends well or badly; when it ends, the
moment and, if it failed, the reason are part of its state, so no other job can have them. A job
never ends before it started, whatever the clock says.
-/

import Upkeep.Action
import Upkeep.JobId
import Upkeep.Time.Timestamp

namespace Upkeep

/-- How far a job has come. -/
inductive JobStatus where
  | pending
  | running
  | completed
  | failed
deriving DecidableEq, Repr

/-- The word for a status. -/
def JobStatus.word : JobStatus → String
  | .pending => "pending"
  | .running => "running"
  | .completed => "completed"
  | .failed => "failed"

/-- Whether a job with this status is over. -/
def JobStatus.isTerminal : JobStatus → Bool
  | .pending | .running => false
  | .completed | .failed => true

/-- The state of a job, with what is known once it has ended. -/
inductive JobState where
  | pending
  | running
  | completed (ended : Timestamp)
  | failed (ended : Timestamp) (reason : String)
deriving DecidableEq

/-- One attempt at an action. -/
structure Job where
  id : JobId
  action : Action
  started : Timestamp
  state : JobState := .pending
deriving DecidableEq

/-- A change of state that a job does not allow. -/
structure InvalidTransition where
  id : JobId
  source : JobStatus
  target : JobStatus
deriving DecidableEq

/-- The message about a refused change of state. -/
def InvalidTransition.message (error : InvalidTransition) : String :=
  "job " ++ error.id.text ++ ": cannot transition from " ++ error.source.word ++ " to " ++
    error.target.word

namespace Job

/-- The status of a job. -/
def status (job : Job) : JobStatus :=
  match job.state with
  | .pending => .pending
  | .running => .running
  | .completed _ => .completed
  | .failed _ _ => .failed

/-- Whether a job is over. -/
def isTerminal (job : Job) : Bool :=
  job.status.isTerminal

/-- When a job ended. -/
def ended? (job : Job) : Option Timestamp :=
  match job.state with
  | .completed ended => some ended
  | .failed ended _ => some ended
  | _ => none

/-- A job has an end exactly when it is over. -/
theorem isSome_ended? (job : Job) : job.ended?.isSome = job.isTerminal := by
  obtain ⟨_, _, _, _ | _ | _ | _⟩ := job <;> rfl

/-- Why a job failed. -/
def reason? (job : Job) : Option String :=
  match job.state with
  | .failed _ reason => some reason
  | _ => none

/-- Nanoseconds from the start of a job to its end, or to now while it is not over. -/
def duration (job : Job) (now : Timestamp) : Nat :=
  job.started.elapsed (job.ended?.getD now)

/-- A pending job begins to run. -/
def run (job : Job) : Except InvalidTransition Job :=
  if job.status = .pending then .ok { job with state := .running }
  else .error ⟨job.id, job.status, .running⟩

/-- A running job ends well. -/
def complete (job : Job) (now : Timestamp) : Except InvalidTransition Job :=
  if job.status = .running then
    .ok { job with state := .completed (job.started.later now) }
  else .error ⟨job.id, job.status, .completed⟩

/-- A running job ends badly. -/
def fail (job : Job) (reason : String) (now : Timestamp) : Except InvalidTransition Job :=
  if job.status = .running then
    .ok { job with state := .failed (job.started.later now) reason }
  else .error ⟨job.id, job.status, .failed⟩

end Job

end Upkeep
