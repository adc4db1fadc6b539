/-
# What becomes of an accepted job

A job that was accepted is worked on exactly once, with the request that it was accepted for,
unless its context is cancelled before a worker comes to it. Until then it waits in the queue.
When the work is over, the store has a record of how it came out, and keeps it until the record
is dropped.

All this is read off the chronicle of the run. The identifiers must not repeat, for the reports
and the store know a job by nothing else.
-/

import Upkeep.Proofs.Service.Commands
import Upkeep.Proofs.Service.Gates

namespace Upkeep.Service

/-- The store has a record of a job that ended for this reason, or had it and dropped it for
good. -/
def Recorded (state : State) (ledger : Ledger) (id : JobId) (failure : Option String) : Prop :=
  ∃ job : Job, job.id = id ∧ job.EndedWith failure ∧
    (state.store.find? id = some job ∨ state.store.find? id = none ∧ job ∈ ledger.dropped)

namespace Chronicle

variable {c : Chronicle}

/-- An errand that is over has its record in the store, until that is dropped. -/
theorem Recounts.recorded {start : Start} {state : State} (hrecounts : c.Recounts start state)
    (hdistinct : state.drawnIds.Nodup)
    {x : Errand × Fate} (hx : x ∈ c.past) :
    Recorded state c.ledger x.1.id x.2.failure? := by
  have htells := hrecounts.tells
  have hstore : state.store = c.ledger.store := htells.store
  obtain ⟨job, hknows, hid, hended⟩ := (htells.closed x hx).known
  rw [← hrecounts.drawn] at hdistinct
  have hfound := htells.kept.balanced.find?_of_knows hdistinct hknows
  rw [hid, ← hstore] at hfound
  exact ⟨job, hid, hended, hfound⟩

end Chronicle

end Upkeep.Service
