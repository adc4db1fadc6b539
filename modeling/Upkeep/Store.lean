/-
# The job slot and its history

At most one job runs at a time: it holds the slot. When it ends it moves to the history, which
lists finished jobs from the oldest to the newest and keeps a bounded number of them. A job that
is looked up by its identifier is sought in the slot first and then from the newest to the
oldest.
-/

import Upkeep.Job.Basic

namespace Upkeep

/-- The job that holds the slot, and those that have ended. -/
structure Store where
  maxHistory : Nat
  current : Option Job := none
  /-- Finished jobs, oldest first. -/
  history : List Job := []
deriving DecidableEq

namespace Store

/-- How many finished jobs are kept, unless told otherwise. -/
def defaultMaxHistory : Nat := 100

/-- Nanoseconds between two sweeps: one hour. -/
def sweepInterval : Nat := 3600 * nanosPerSecond

/-- Nanoseconds after its start at which a sweep drops a finished job: one day. -/
def defaultMaxAge : Nat := 86400 * nanosPerSecond

/-- The longest age that a sweep tells from longer ones: 64 bits of milliseconds with sign. -/
def longestAge : Nat := (Nat.pow 2 63 - 1) * nanosPerMilli

/-- The job of an identifier. -/
def find? (store : Store) (id : JobId) : Option Job :=
  (store.current.filter fun job => job.id = id).or
    (store.history.reverse.find? fun job => job.id = id)

/-- The job that ended last. -/
def latest? (store : Store) : Option Job :=
  store.history.getLast?

/-- Gives the slot to a pending job, which begins to run, unless a running job holds it. -/
def tryStart (store : Store) (job : Job) : Bool × Store :=
  if store.current.any fun holder => holder.status = .running then (false, store)
  else
    match job.run with
    | .error _ => (false, store)
    | .ok running => (true, { store with current := some running })

/-- The newest jobs of a list, as many as are kept. -/
def keepNewest (limit : Nat) (jobs : List Job) : List Job :=
  jobs.drop (jobs.length - limit)

/-- Ends the job that holds the slot and moves it to the history, if there is one and it is the
expected one. A job that refuses to end moves as it is. -/
def finish (store : Store) (expected : Option JobId)
    (ending : Job → Except InvalidTransition Job) : Option Job × Store :=
  match store.current with
  | none => (none, store)
  | some job =>
    if expected.all fun id => job.id = id then
      let ended := match ending job with
        | .ok ended => ended
        | .error _ => job
      (some ended,
        ⟨store.maxHistory, none, keepNewest store.maxHistory (store.history ++ [ended])⟩)
    else (none, store)

/-- The job that holds the slot ends well. -/
def completeCurrent (store : Store) (now : Timestamp) : Option Job × Store :=
  store.finish none fun job => job.complete now

/-- The job that holds the slot ends badly. -/
def failCurrent (store : Store) (reason : String) (now : Timestamp) : Option Job × Store :=
  store.finish none fun job => job.fail reason now

/-- A job ends well, if it holds the slot. -/
def completeJob (store : Store) (id : JobId) (now : Timestamp) : Option Job × Store :=
  store.finish (some id) fun job => job.complete now

/-- A job ends badly, if it holds the slot. -/
def failJob (store : Store) (id : JobId) (reason : String) (now : Timestamp) :
    Option Job × Store :=
  store.finish (some id) fun job => job.fail reason now

/-- The earliest start that a sweep lets pass. -/
def cutoff (maxAge : Nat) (now : Timestamp) : Timestamp :=
  now.before (min maxAge longestAge)

/-- Drops the finished jobs that started longer ago than an age in nanoseconds. -/
def sweep (store : Store) (maxAge : Nat) (now : Timestamp) : Store :=
  { store with history := store.history.filter fun job => cutoff maxAge now ≤ job.started }

/-- How many jobs a sweep drops. -/
def sweepCount (store : Store) (maxAge : Nat) (now : Timestamp) : Nat :=
  store.history.length - (store.sweep maxAge now).history.length

end Store

end Upkeep
