/-
# Settings of a worker pool

How many tasks may run at once, how many may wait for a worker, and how long a task may take
before it is told to stop. At least one task can run and one can wait. Time is counted in
nanoseconds.
-/

import Upkeep.Time.Timestamp

namespace Upkeep.Pool

/-- How many tasks run at once, unless told otherwise. -/
def defaultWorkers : Nat := 10

/-- How many tasks may wait, unless told otherwise. -/
def defaultBacklog : Nat := 100

/-- How long a task may take, unless told otherwise: five minutes. -/
def defaultTaskTimeout : Nat := 300 * nanosPerSecond

/-- How long a task may take whose own time ends where no clock can show it: thirty years of 365
days. -/
def longestTimeout : Nat := 30 * 365 * 86400 * nanosPerSecond

/-- The most tasks for which a queue can have room. -/
def maxCapacity : Nat := Nat.pow 2 61 - 1

/-- The most workers that a list can hold: with eight bytes for each, they take up less than
half of what can be addressed. Below this bound memory is taken to be unlimited. -/
def maxWorkers : Nat := Nat.pow 2 60 - 1

/-- The settings of a pool. -/
structure Settings where
  workers : Nat
  /-- How many tasks may wait for a worker. -/
  capacity : Nat
  /-- How long a task may take. -/
  taskTimeout : Nat
deriving DecidableEq, Repr

/-- Settings with at least one worker and room for one task. -/
def Settings.of (workers capacity taskTimeout : Nat) : Settings :=
  ⟨max workers 1, max capacity 1, taskTimeout⟩

/-- What a pool takes as its surroundings give it. -/
structure Circumstances where
  /-- The last instant that the clock can show: by default it counts seconds up to the greatest
  that a signed number of 64 bits can be. -/
  lastInstant : Nat := 9223372036854775807 * nanosPerSecond + 999999999
  /-- Whether the worker of the task with a ticket looks at the task before it looks at the clock
  when the task's deadline has come. The program leaves that to chance. It matters for one look at
  each task, since after that the task has been told to stop. -/
  taskFirst : Nat → Bool := fun _ => false

/-- When a task that starts at an instant is told to stop: after the time that it may take, or
else after the longest one, or else at once, whichever of these the clock can show. -/
def Circumstances.deadlineAfter (circumstances : Circumstances) (instant timeout : Nat) : Nat :=
  if instant + timeout ≤ circumstances.lastInstant then instant + timeout
  else if instant + longestTimeout ≤ circumstances.lastInstant then instant + longestTimeout
  else instant

/-- No deadline is before the start. -/
theorem Circumstances.le_deadlineAfter (circumstances : Circumstances) (instant timeout : Nat) :
    instant ≤ circumstances.deadlineAfter instant timeout := by
  unfold deadlineAfter
  split
  · exact Nat.le_add_right ..
  split
  · exact Nat.le_add_right ..
  · exact Nat.le_refl _

/-- A clock that cannot show all deadlines only brings them forward. -/
theorem Circumstances.deadlineAfter_le (circumstances : Circumstances) (instant timeout : Nat) :
    circumstances.deadlineAfter instant timeout ≤ instant + timeout := by
  unfold deadlineAfter
  split
  · exact Nat.le_refl _
  split <;> omega

end Upkeep.Pool
