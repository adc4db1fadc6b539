/-
# The work on a job

What a worker does with a job: it works out the plan of the request, runs its commands one after
the other, and records in the store how the job ended. The host is played by a script that says
how each command goes. A command may be stuck until it is released from outside, and ends then,
well or badly; most stuck commands also stop when the worker's context is cancelled. A command
that is killed is taken to have stopped by the time its worker goes on, at the very instant at
which the context is cancelled.
-/

import Upkeep.Executor
import Upkeep.Pool.Clock
import Upkeep.Store

namespace Upkeep.Service

/-- How a command ends by itself. -/
inductive Ending where
  | succeeds
  /-- It exits with another status than zero or by a signal. -/
  | fails (status : Option Int) (stderr : String)
  /-- The worker panics over it, with a message if there is one. -/
  | panics (message : Option String)
deriving DecidableEq, Repr

/-- How a command of the scripted host plays. -/
inductive Play where
  /-- It ends at once. -/
  | ends (ending : Ending)
  /-- It cannot be started. -/
  | unstartable (reason : String)
  /-- It is stuck until it is released or no longer wanted. -/
  | stuck (ending : Ending := .succeeds)
  /-- It is stuck until it is released. -/
  | deaf (ending : Ending := .succeeds)
deriving DecidableEq, Repr

namespace Play

abbrev succeeds : Play := .ends .succeeds

abbrev fails (status : Option Int) (stderr : String) : Play := .ends (.fails status stderr)

abbrev panics (message : Option String) : Play := .ends (.panics message)

end Play

/-- What a worker can be given to do. -/
inductive Assignment where
  /-- A job with its request. -/
  | job (id : JobId) (request : Request)
  /-- Keeping a worker busy until it is released or no longer wanted. -/
  | occupation
deriving DecidableEq

/-- Where a worker is between two turns. -/
inductive Progress where
  /-- A command is stuck and will end in some way; further ones are to follow. -/
  | command (id : JobId) (stuck : Host.Command) (ending : Ending) (further : List Host.Command)
  | occupied
deriving DecidableEq

/-- How the work on a request came out. -/
inductive Outcome where
  /-- The action was carried out. -/
  | succeeded
  /-- The action was not carried out, or not wholly. -/
  | failed (error : ActionError)
  /-- The worker panicked, with a message if there is one. -/
  | panicked (message : Option String)
deriving DecidableEq

/-- What workers report. -/
inductive Report where
  /-- The work on the request of a job has begun. -/
  | begun (id : JobId) (request : Request)
  /-- A command was launched. -/
  | launched (id : JobId) (command : Host.Command)
  /-- A command that was launched no longer runs. -/
  | stopped (id : JobId) (command : Host.Command)
  /-- The work on the request of a job is over. -/
  | concluded (id : JobId) (outcome : Outcome)
deriving DecidableEq

/-- What workers act on. -/
structure World where
  store : Store
  /-- What the calendar clock shows, in nanoseconds since the beginning of 1970. -/
  reading : Int
  surroundings : Executor.Surroundings
  /-- How the commands to come play, in order; past the end they succeed. -/
  script : List Play := []

/-- The moment that the calendar clock shows. -/
def World.clock (world : World) : Timestamp :=
  .clamp world.reading

/-- A turn of a worker. -/
abbrev WorkTurn := Pool.Turn Progress World Report

/-- Why a job failed whose context was cancelled before it began. -/
def cancelledEarlyReason : String := "job cancelled before it started"

/-- Why a job failed over which its worker panicked. -/
def panicReason (message : Option String) : String :=
  "action panicked: " ++ message.getD "non-string panic payload"

/-- Why a job failed whose work came out this way, if it did fail. -/
def Outcome.failure? : Outcome → Option String
  | .succeeded => none
  | .failed error => some error.message
  | .panicked message => some (panicReason message)

/-- Records the end of a job: well without a reason, badly with one. -/
def record (world : World) (id : JobId) (failure : Option String) (now : Timestamp) : World :=
  match failure with
  | none => { world with store := (world.store.completeJob id now).2 }
  | some reason => { world with store := (world.store.failJob id reason now).2 }

/-- The last turn of the work on a job. -/
def conclude (world : World) (id : JobId) (outcome : Outcome) (said : List Report) :
    WorkTurn where
  world := record world id outcome.failure? world.clock
  said := said ++ [.concluded id outcome]

/-- What becomes of a command at once. -/
inductive Course where
  /-- It has succeeded. -/
  | done
  /-- It has brought the work on its job to an end. -/
  | over (outcome : Outcome)
  /-- It is stuck, and will end in some way. -/
  | stuck (ending : Ending) (pause : Pool.Pause)

/-- The outcome of an action over a command that fails. -/
def Outcome.ofHostError (error : Host.HostError) : Outcome :=
  .failed (.ofHostError error)

/-- The outcome of an action over a command that ends, unless the action goes on. -/
def Ending.outcome? (command : Host.Command) : Ending → Option Outcome
  | .succeeds => none
  | .fails status stderr => some (.ofHostError (.commandFailed command.describe status stderr))
  | .panics message => some (.panicked message)

/-- How a command goes that plays in a way. -/
def Play.course (command : Host.Command) (cancelled : Bool) : Play → Course
  | .ends ending =>
    match ending.outcome? command with
    | none => .done
    | some outcome => .over outcome
  | .unstartable reason => .over (.ofHostError (.notStarted command.describe reason))
  | .deaf ending => .stuck ending { heedsRelease := true }
  | .stuck ending =>
    if cancelled then .over (.ofHostError (.cancelled command.describe))
    else .stuck ending { heedsRelease := true, heedsCancel := true }

/-- Runs the commands of a job in order, until one is stuck, one fails, or all have succeeded. -/
def runCommands (id : JobId) (context : Pool.Context) :
    List Host.Command → World → List Report → WorkTurn
  | [], world, said => conclude world id .succeeded said
  | command :: further, world, said =>
    let said := said ++ [.launched id command]
    let play := world.script.head?.getD .succeeds
    let world := { world with script := world.script.tail }
    match play.course command context.cancelled with
    | .done => runCommands id context further world (said ++ [.stopped id command])
    | .over outcome => conclude world id outcome (said ++ [.stopped id command])
    | .stuck ending pause =>
      { world, said, waits := some (.command id command ending further, pause) }

/-- The first turn of an assignment. -/
def begin (assignment : Assignment) (context : Pool.Context) (world : World) : WorkTurn :=
  match assignment with
  | .occupation =>
    if context.cancelled then { world }
    else { world, waits := some (.occupied, { heedsRelease := true, heedsCancel := true }) }
  | .job id request =>
    if context.cancelled then
      { world := record world id cancelledEarlyReason world.clock }
    else
      match Executor.plan world.surroundings request context.cancelled with
      | .error error => conclude world id (.failed error) [.begun id request]
      | .ok commands => runCommands id context commands world [.begun id request]

/-- A later turn of an assignment. -/
def goOn (progress : Progress) (cue : Pool.Cue) (context : Pool.Context) (world : World) :
    WorkTurn :=
  match progress, cue with
  | .occupied, _ => { world }
  | .command id stuck _ _, .cancel =>
    conclude world id (.ofHostError (.cancelled stuck.describe)) [.stopped id stuck]
  | .command id stuck ending further, _ =>
    match ending.outcome? stuck with
    | none => runCommands id context further world [.stopped id stuck]
    | some outcome => conclude world id outcome [.stopped id stuck]

/-- A command that is stuck waits for something still to come. -/
theorem Play.sound_of_course {play : Play} {command : Host.Command} {context : Pool.Context}
    {ending : Ending} {pause : Pool.Pause}
    (h : play.course command context.cancelled = .stuck ending pause) : pause.Sound context := by
  cases play with
  | unstartable => cases h
  | ends ending =>
    simp only [course] at h
    split at h <;> cases h
  | deaf => cases h; exact ⟨nofun, nofun⟩
  | stuck =>
    simp only [course] at h
    split at h
    · cases h
    next hcancelled => cases h; exact ⟨nofun, fun _ => by simpa using hcancelled⟩

/-- A stuck command is a sound pause. -/
theorem sound_of_runCommands {id : JobId} {context : Pool.Context}
    {commands : List Host.Command} {world : World} {said : List Report} {progress : Progress}
    {pause : Pool.Pause}
    (h : (runCommands id context commands world said).waits = some (progress, pause)) :
    pause.Sound context := by
  induction commands generalizing world said with
  | nil => cases h
  | cons command further ih =>
    simp only [runCommands] at h
    split at h
    · exact ih h
    · cases h
    next hcourse => cases h; exact Play.sound_of_course hcourse

/-- A worker that waits after its first turn waits soundly. -/
theorem sound_of_begin {assignment : Assignment} {context : Pool.Context} {world : World}
    {progress : Progress} {pause : Pool.Pause}
    (h : (begin assignment context world).waits = some (progress, pause)) :
    pause.Sound context := by
  cases assignment with
  | occupation =>
    simp only [begin] at h
    split at h
    · cases h
    next hcancelled => cases h; exact ⟨nofun, fun _ => by simpa using hcancelled⟩
  | job id request =>
    simp only [begin] at h
    split at h
    · cases h
    · split at h
      · cases h
      · exact sound_of_runCommands h

/-- A worker that waits after a later turn waits soundly. -/
theorem sound_of_goOn {progress next : Progress} {cue : Pool.Cue} {context : Pool.Context}
    {world : World} {pause : Pool.Pause}
    (h : (goOn progress cue context world).waits = some (next, pause)) :
    pause.Sound context := by
  unfold goOn at h
  split at h
  · cases h
  · cases h
  · split at h
    · exact sound_of_runCommands h
    · cases h

/-- How workers go about their assignments. -/
def work : Pool.Behaviour Assignment Progress World Report where
  start := begin
  resume := goOn
  start_sound := sound_of_begin
  resume_sound := sound_of_goOn

end Upkeep.Service
