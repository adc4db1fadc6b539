/-
# Jobs as they are kept

`Job` has what is known of an end inside its state, so there it makes no difference in which order
things are written. Where a job is kept, it is a record of six fields, and a call changes it in
place: first the status, if it is the one that the call starts from, then the end, and last the
reason of a failure. What has been written stays written, even if the call goes wrong further on.
So it takes a proof that no record is ever left half changed.
-/

import Upkeep.Job.Basic

namespace Upkeep.Job

/-- The fields of a job that is kept. -/
structure Record where
  id : JobId
  action : Action
  status : JobStatus
  started : Timestamp
  ended? : Option Timestamp
  reason? : Option String
deriving DecidableEq

/-- What is kept of a job. -/
def record (job : Job) : Record where
  id := job.id
  action := job.action
  status := job.status
  started := job.started
  ended? := job.ended?
  reason? := job.reason?

/-- What a job can be told. -/
inductive Call where
  | run
  | complete (now : Timestamp)
  | fail (reason : String) (now : Timestamp)
deriving DecidableEq

/-- The job as a call changes it, unless it is refused. -/
def heed (job : Job) : Call → Except InvalidTransition Job
  | .run => job.run
  | .complete now => job.complete now
  | .fail reason now => job.fail reason now

/-- The job after calls, one after the other. One that is refused is passed over. -/
def heedAll (job : Job) (calls : List Call) : Job :=
  calls.foldl (fun job call => (job.heed call).toOption.getD job) job

namespace Record

/-- A change of a record in place. If it is refused, what it has written by then stays. -/
abbrev Change := EStateM InvalidTransition Record Unit

/-- Moves the status, if it is the one to start from. -/
def transition (source target : JobStatus) : Change := do
  let record ← get
  if record.status ≠ source then throw ⟨record.id, record.status, target⟩
  set { record with status := target }

/-- Writes the end, which is never one before the start. -/
def stampEnd (now : Timestamp) : Change :=
  modify fun record => { record with ended? := some (record.started.later now) }

/-- Writes the reason of a failure. -/
def noteReason (reason : String) : Change :=
  modify fun record => { record with reason? := some reason }

/-- What a call changes, step by step. -/
def change : Call → Change
  | .run => transition .pending .running
  | .complete now => do
    transition .running .completed
    stampEnd now
  | .fail reason now => do
    transition .running .failed
    stampEnd now
    noteReason reason

/-- What a call answers, and the record that it leaves. -/
def perform (record : Record) (call : Call) : Except InvalidTransition Unit × Record :=
  match change call record with
  | .ok () after => (.ok (), after)
  | .error refused after => (.error refused, after)

/-- The record that calls leave, one after the other. -/
def performAll (record : Record) (calls : List Call) : Record :=
  calls.foldl (fun record call => (record.perform call).2) record

end Record

end Upkeep.Job
