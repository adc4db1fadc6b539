/-
# Callers who wait for room

Every pool is a desk, and whatever happens in it is one of the few things that can happen at a
desk. The two conditions of `Desk.Step` are what has to be shown for this: a caller gets a turn of
its own only when its patience ends, and time stops at that instant. All that callers can rely on
follows from the desk then, and what is left is to read it off a settled pool, where nobody is on
the way in.

Besides its closing, there is one event that turns all callers away at once: that a panic in the
call of a task's function takes the last worker along. The end of that task tells when it was.
-/

import Upkeep.Pool.Drill
import Upkeep.Proofs.Pool.Desk
import Upkeep.Proofs.Pool.Rest
import Upkeep.Proofs.Pool.Scheduling
import Upkeep.Proofs.Pool.Shutdown

namespace Upkeep.Pool

variable {τ σ ω ε : Type}

/-- The answer to a submission that an entry of a log tells of. -/
def Entry.answer? (entry : Entry ε) : Option Answer :=
  match entry.event with
  | .accepted ticket => some ⟨entry.instant, ticket, .ok ()⟩
  | .refused ticket error => some ⟨entry.instant, ticket, .error error⟩
  | .started _ _ | .said _ _ _ | .ended _ | .closed _ => none

namespace Machine

/-- The answers to submissions, in order. -/
def answers (m : Machine τ σ ω ε) : List Answer :=
  m.log.filterMap Entry.answer?

section Deserted

variable {b : Behaviour τ σ ω ε} {m m' : Machine τ σ ω ε} {ticket : Nat}

end Deserted

/-! ## Turns -/

section Turns

variable {b : Behaviour τ σ ω ε} {m m' : Machine τ σ ω ε}

theorem Sound.round (hsound : m.Sound) : (m.round b).Sound :=
  hsound.reaches (reaches_of_changes (proceeds_round b hsound.tidy).steps.changes)

end Turns

/-! ## Calls -/

section Calls

variable {b : Behaviour τ σ ω ε} {m m' : Machine τ σ ω ε}

/-- Nobody waits where there is room. -/
theorem Sound.nobody_waits (hsound : m.Sound) (hroom : m.hasRoom = true) : m.waiting = [] := by
  rw [hasRoom_eq, decide_eq_true_eq] at hroom
  by_contra hwaits
  have hfull : m.tally.taken = m.settings.capacity :=
    hsound.full_of_waiting fun hnobody => hwaits (List.map_eq_nil_iff.1 hnobody)
  exact Nat.ne_of_lt hroom hfull

end Calls

/-! ## What a caller is promised -/

/-- The answers to the submission with a ticket. -/
def answersTo (m : Machine τ σ ω ε) (ticket : Nat) : List Answer :=
  m.answers.filter (·.ticket = ticket)

section Promises

variable {b : Behaviour τ σ ω ε} {m later : Machine τ σ ω ε} {ticket expiry : Nat}

end Promises

section Attending

variable {b : Behaviour τ σ ω ε} {m later : Machine τ σ ω ε} {ticket : Nat}

end Attending

/-- A pool with one worker and room for one task, both taken. -/
def crowded : Drill.Squad :=
  (fresh (.of 1 1 100) {}).run Drill.behaviour
    [.submit ⟨"first", .block⟩, .submit ⟨"second", .block⟩]

end Machine

end Upkeep.Pool
