/-
# The state of the service

The settings that do not change while the service runs, and what does change: the limiter, and
the worker pool, whose world holds the store. Fresh job identifiers are drawn from a supply.

The service reads two clocks of its host, one of the calendar and one that counts from the start
of the service. Its timers run by the clock of the pool. All of them go on together, but the
calendar clock can be set.
-/

import Upkeep.RateLimit.ClientKey
import Upkeep.RateLimit.Limiter
import Upkeep.Service.Work
import Upkeep.Signature

namespace Upkeep.Service

/-- The pool with its workers and the world that they act on. -/
abbrev Crew := Pool.Machine Assignment Progress World Report

/-- What does not change while the service runs. -/
structure Setup where
  authenticator : Authenticator
  /-- Whether headers are believed about where a request comes from. -/
  trustProxy : Bool
  /-- The n-th fresh identifier. -/
  supply : Nat → JobId

/-- The service. -/
structure State where
  setup : Setup
  limiter : RateLimit.Limiter Double
  crew : Crew
  /-- What the clock that counts from the start shows, in nanoseconds. -/
  uptime : Nat := 0
  /-- How many identifiers have been drawn from the supply. -/
  drawn : Nat := 0

namespace State

/-- The jobs of the service. -/
def store (state : State) : Store :=
  state.crew.world.store

/-- The instant that the timers of the service have come to. -/
def now (state : State) : Nat :=
  state.crew.now

/-- The reading of the calendar clock. -/
def clock (state : State) : Timestamp :=
  state.crew.world.clock

/-- The calendar clock in whole seconds. -/
def clockSeconds (state : State) : Int64 :=
  .ofInt state.clock.seconds

/-- The service with another pool. -/
def withCrew (state : State) (crew : Crew) : State :=
  { state with crew }

/-- The service with another world for its workers. -/
def withWorld (state : State) (world : World) : State :=
  state.withCrew { state.crew with world }

/-- The service with another store. -/
def withStore (state : State) (store : Store) : State :=
  state.withWorld { state.crew.world with store }

/-- Lets everything happen that can happen at this instant. -/
def settle (state : State) : State :=
  state.withCrew (state.crew.settle work)

end State

end Upkeep.Service
