/-
# Running the service

The service in time. Requests are answered at an instant, and after each answer everything
happens that can happen then. As time passes, workers finish or are told to stop, every minute
the limiter is swept, and every hour the store.

The clocks of the host go on together with the timers, whatever the service waits for. Closing the
pool only begins to wait for its tasks; messages go on to be answered meanwhile, and the call
returns at some instant of the time that passes.
-/

import Upkeep.Service.Router

namespace Upkeep.Service.State

/-- The service when nothing has happened yet. -/
def initial (setup : Setup) (limits : RateLimit.Limits Double) (settings : Pool.Settings)
    (world : World) (circumstances : Pool.Circumstances := {}) : State where
  setup
  limiter := .ofLimits limits
  crew := { settings, world, circumstances }

/-- Answers a request, and lets happen what comes of it. -/
def handle (state : State) (message : Http.Request) : Http.Response × State :=
  let (response, state) := answer state message
  (response, state.settle)

/-- Sweeps the limiter at every minute. -/
def sweepLimiter (state : State) : State :=
  if state.now % RateLimit.sweepInterval = 0 then
    { state with limiter := state.limiter.sweep state.uptime }
  else state

/-- Sweeps the store at every hour. -/
def sweepStore (state : State) : State :=
  if state.now % Store.sweepInterval = 0 then
    state.withStore (state.store.sweep Store.defaultMaxAge state.clock)
  else state

/-- The clocks of the host go on by a span. -/
def tick (state : State) (span : Nat) : State :=
  { state.withWorld { state.crew.world with reading := state.crew.world.reading + span } with
    uptime := state.uptime + span }

/-- Brings the timers of the service to an instant. -/
def arrive (instant : Nat) (state : State) : State :=
  (state.withCrew (state.crew.arrive work instant)).sweepLimiter.sweepStore

/-- The next instant at which the limiter is swept. -/
def nextSweep (state : State) : Nat :=
  (state.now / RateLimit.sweepInterval + 1) * RateLimit.sweepInterval

/-- Arriving at an instant sets the timers to it. -/
theorem now_arrive (instant : Nat) (state : State) : (state.arrive instant).now = instant := by
  have hsweep : ∀ s : State, s.sweepLimiter.sweepStore.now = s.now := by
    intro s
    have hlimiter : s.sweepLimiter.now = s.now := by
      unfold sweepLimiter; split <;> rfl
    have hstore : ∀ t : State, t.sweepStore.now = t.now := by
      intro t; unfold sweepStore; split <;> rfl
    rw [hstore, hlimiter]
  rw [arrive, hsweep]
  exact (Pool.Machine.line work).now_arrive instant state.crew

/-- The service as something that changes at instants. -/
def line : Timeline State where
  now := now
  next? state := ((state.crew.dueInstants.min?.map (min state.nextSweep)).getD state.nextSweep)
  arrive instant state := (state.tick (instant - state.now)).arrive instant
  now_arrive _ _ := now_arrive ..

/-- Lets time pass. -/
def pass (state : State) (span : Nat) : State :=
  line.advance (state.now + span) state

/-- Releases everything that is stuck now. -/
def release (state : State) : State :=
  state.withCrew (state.crew.release work fun _ => true)

/-- Keeps a worker busy. -/
def occupy (state : State) : Except Pool.PoolError Unit × State :=
  let (taken, crew) := state.crew.submit .occupation
  (taken, (state.withCrew crew).settle)

/-- Closes the pool and begins to wait for its tasks, as long as `patience` and perhaps in the
foreground. -/
def beginClosing (state : State) (patience : Nat) (inFront : Bool) : State :=
  state.withCrew (state.crew.close work patience inFront)

/-- Closes the pool in the foreground and lets time pass until that call returns. -/
def closePool (state : State) (patience : Nat) : Option (Except Pool.PoolError Unit) × State :=
  let closing := state.beginClosing patience true
  let after :=
    if state.crew.isOpen then
      line.runTo (fun s => s.crew.closing.isNone) (state.now + patience) closing
    else closing
  (after.crew.closeResult?, after)

/-- Sets the calendar clock. -/
def setClock (state : State) (reading : Timestamp) : State :=
  state.withWorld { state.crew.world with reading := reading.nanos }

end Upkeep.Service.State
