/-
# Tasks of a worker pool

A task is a function that a worker calls, and what the call gives is run by that worker in turns.
In each turn it acts on a world that all tasks share, says what it has to say, and then ends or
waits for something: an instant, a release from outside, or the cancellation of its context. A
panic in a turn is one way to end. A panic in the call comes before there is anything to run; that
is a way to go wrong of its own.
-/

import Upkeep.Pool.Settings

namespace Upkeep.Pool

/-- Why the pool did not do what it was asked for. -/
inductive PoolError where
  | queueFull
  | shutdown
  | timeout
  | shutdownTimeout
deriving DecidableEq, Repr

/-- The message about a pool that did not do what it was asked for. -/
def PoolError.message : PoolError → String
  | .queueFull => "worker pool queue is full"
  | .shutdown => "worker pool is shut down"
  | .timeout => "timed out waiting for space in the worker pool queue"
  | .shutdownTimeout => "timed out waiting for workers to finish"

/-- What a task can see of its surroundings in a turn. -/
structure Context where
  now : Nat
  /-- When the task is told to stop. -/
  deadline : Nat
  cancelled : Bool
deriving DecidableEq, Repr

/-- What a task waits for between two turns; the first of these that happens wakes it. -/
structure Pause where
  wake : Option Nat := none
  heedsRelease : Bool := false
  heedsCancel : Bool := false
deriving DecidableEq, Repr

/-- A pause is sound at a turn if nothing that it waits for has happened by then. -/
def Pause.Sound (pause : Pause) (context : Context) : Prop :=
  (∀ instant ∈ pause.wake, context.now < instant) ∧
    (pause.heedsCancel = true → context.cancelled = false)

instance (pause : Pause) (context : Context) : Decidable (pause.Sound context) :=
  inferInstanceAs (Decidable (_ ∧ _))

/-- Why a waiting task gets its next turn. -/
inductive Cue where
  | wake
  | release
  | cancel
deriving DecidableEq, Repr

/-- What comes of a turn: the world after it, what the task said, and how it waits on, unless
it has ended. -/
structure Turn (σ ω ε : Type) where
  world : ω
  said : List ε := []
  waits : Option (σ × Pause) := none

/-- What a call of a task's function leaves behind when it panics: the world after it, and what
the function has said by then. -/
structure Wreck (ω ε : Type) where
  world : ω
  said : List ε := []

/-- What is left is all that comes of the task. -/
def Wreck.turn {σ ω ε : Type} (wreck : Wreck ω ε) : Turn σ ω ε :=
  { world := wreck.world, said := wreck.said }

/-- How tasks of a kind behave. A task that waits does so for something still to come. -/
structure Behaviour (τ σ ω ε : Type) where
  /-- What comes of calling the task's function, if the call panics. -/
  crash? : τ → Context → ω → Option (Wreck ω ε) := fun _ _ _ => none
  start : τ → Context → ω → Turn σ ω ε
  resume : σ → Cue → Context → ω → Turn σ ω ε
  start_sound : ∀ {task context world state pause},
    (start task context world).waits = some (state, pause) → pause.Sound context
  resume_sound : ∀ {task cue context world state pause},
    (resume task cue context world).waits = some (state, pause) → pause.Sound context

end Upkeep.Pool
