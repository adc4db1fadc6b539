/-
# Scripted tasks

Simple tasks that show what a pool does: they end at once, sleep, wait for a release or for the
cancellation of their context, linger on after it, or panic, either in a turn or in the call that
is to give them something to do. A release is for good and holds for every task of a name, whether
it has started yet or not.
-/

import Upkeep.Pool.Clock

namespace Upkeep.Pool.Drill

/-- What a scripted task does. Times are in nanoseconds. -/
inductive Kind where
  /-- Ends at once. -/
  | instant
  /-- Sleeps, whatever happens to its context. -/
  | sleep (span : Nat)
  /-- Waits for a release, whatever happens to its context. -/
  | block
  /-- Waits for a release or the cancellation of its context. -/
  | wait
  /-- Waits for the cancellation of its context, and then sleeps. -/
  | linger (span : Nat)
  /-- Sleeps and then panics. -/
  | panic (span : Nat)
  /-- Panics when its function is called. -/
  | crash
deriving DecidableEq, Repr

/-- A scripted task. -/
structure Task where
  name : String
  kind : Kind
deriving DecidableEq, Repr

/-- What a scripted task says. -/
inductive Word where
  /-- It ends as planned. -/
  | done
  /-- It ends because its context was cancelled. -/
  | stopped
  /-- It has noticed that its context was cancelled, and goes on. -/
  | noticed
  /-- It panics. -/
  | panicked
deriving DecidableEq, Repr

/-- Where a scripted task is between two turns. -/
inductive State where
  | asleep
  | awaitingPanic
  | blocked (name : String)
  | waiting (name : String)
  | lingering (span : Nat)
deriving DecidableEq, Repr

/-- What scripted tasks share: the names that have been released. -/
structure World where
  released : List String := []

/-- The last turn of a task. -/
def finish (world : World) (word : Word) : Turn State World Word :=
  { world, said := [word] }

/-- Goes to sleep for a span and then continues as `state`; for no span at all, ends at once
with `word`. -/
def sleepFor (span : Nat) (context : Context) (world : World) (said : List Word)
    (state : State) (word : Word) : Turn State World Word :=
  if span = 0 then { world, said := said ++ [word] }
  else { world, said, waits := some (state, { wake := some (context.now + span) }) }

/-- Sleeps on after the cancellation of the context. -/
def lingerOn (span : Nat) (context : Context) (world : World) : Turn State World Word :=
  sleepFor span context world [.noticed] .asleep .done

/-- What comes of calling a task's function, if that panics. -/
def crash? (task : Task) (world : World) : Option (Wreck World Word) :=
  if task.kind = .crash then some { world } else none

/-- The first turn of a task. A task whose call panics never has one. -/
def start (task : Task) (context : Context) (world : World) : Turn State World Word :=
  match task.kind with
  | .instant | .crash => finish world .done
  | .sleep span => sleepFor span context world [] .asleep .done
  | .panic span => sleepFor span context world [] .awaitingPanic .panicked
  | .block =>
    if task.name ∈ world.released then finish world .done
    else { world, waits := some (.blocked task.name, { heedsRelease := true }) }
  | .wait =>
    if context.cancelled then finish world .stopped
    else if task.name ∈ world.released then finish world .done
    else
      { world,
        waits := some (.waiting task.name, { heedsRelease := true, heedsCancel := true }) }
  | .linger span =>
    if context.cancelled then lingerOn span context world
    else { world, waits := some (.lingering span, { heedsCancel := true }) }

/-- A later turn of a task. -/
def resume (state : State) (cue : Cue) (context : Context) (world : World) :
    Turn State World Word :=
  match state, cue with
  | .awaitingPanic, _ => finish world .panicked
  | .lingering span, _ => lingerOn span context world
  | .waiting _, .cancel => finish world .stopped
  | _, _ => finish world .done

/-- A sleep is a sound pause. -/
theorem sound_of_sleepFor {span : Nat} {context : Context} {world : World} {said : List Word}
    {next state : State} {word : Word} {pause : Pause}
    (h : (sleepFor span context world said next word).waits = some (state, pause)) :
    pause.Sound context := by
  unfold sleepFor at h
  split at h
  · cases h
  · cases h
    refine ⟨fun instant hinstant => ?_, nofun⟩
    have hwake : context.now + span = instant := by simpa using hinstant
    omega

/-- A task that waits after its first turn waits soundly. -/
theorem sound_of_start {task : Task} {context : Context} {world : World} {state : State}
    {pause : Pause} (h : (start task context world).waits = some (state, pause)) :
    pause.Sound context := by
  obtain ⟨name, kind⟩ := task
  cases kind with
  | instant | crash => cases h
  | sleep span => exact sound_of_sleepFor h
  | panic span => exact sound_of_sleepFor h
  | block =>
    simp only [start] at h
    split at h
    · cases h
    · cases h; exact ⟨nofun, nofun⟩
  | wait =>
    simp only [start] at h
    split at h
    · cases h
    next hcancelled =>
      split at h
      · cases h
      · cases h; exact ⟨nofun, fun _ => by simpa using hcancelled⟩
  | linger span =>
    simp only [start] at h
    split at h
    · exact sound_of_sleepFor h
    next hcancelled => cases h; exact ⟨nofun, fun _ => by simpa using hcancelled⟩

/-- A task that waits after a later turn waits soundly. -/
theorem sound_of_resume {state next : State} {cue : Cue} {context : Context} {world : World}
    {pause : Pause} (h : (resume state cue context world).waits = some (next, pause)) :
    pause.Sound context := by
  unfold resume at h
  split at h
  · cases h
  · exact sound_of_sleepFor h
  · cases h
  · cases h

/-- How scripted tasks behave. -/
def behaviour : Behaviour Task State World Word where
  crash? task _ world := crash? task world
  start := start
  resume := resume
  start_sound := sound_of_start
  resume_sound := sound_of_resume

/-- A pool of scripted tasks. -/
abbrev Squad := Machine Task State World Word

/-- Whether a task waits under a name. -/
def isNamed (name : String) : State → Bool
  | .blocked other => other = name
  | .waiting other => other = name
  | _ => false

/-- Releases all tasks of a name, for good. -/
def release (name : String) (squad : Squad) : Squad :=
  Machine.release behaviour { squad with world := ⟨name :: squad.world.released⟩ } (isNamed name)

end Upkeep.Pool.Drill
