/-
# Episodes

An episode is all that a worker reports of one job: that it began, which commands it launched
and saw stopped, and how it came out. A worker that is stuck over a command is in the middle of
its episode, and its next turn takes the episode on where the last one left it.

The shape of an episode does not depend on how the commands play. A turn either ends the episode
after a block of commands from the front of the plan, or leaves one command stuck, with all those
before it done and all those behind it still to follow. An errand whose context is cancelled
before it begins has no episode at all, only an end.
-/

import Upkeep.Proofs.Store.Effect
import Upkeep.Service.Work

namespace Upkeep.Service

/-- A job that the pool has taken. -/
structure Errand where
  ticket : Nat
  id : JobId
  request : Request
deriving DecidableEq

/-- The commands that a request calls for; a request that is refused calls for none. -/
def planned (surroundings : Executor.Surroundings) (request : Request) : List Host.Command :=
  (Executor.plan surroundings request false).toOption.getD []

/-- What is reported of commands that run one after the other. -/
def performed (id : JobId) (commands : List Host.Command) : List Report :=
  commands.flatMap fun command => [.launched id command, .stopped id command]

/-- What became of an errand. -/
inductive Fate where
  /-- Its context was cancelled before it began. -/
  | skipped
  /-- The work on it came to an end after a block of commands. -/
  | executed (block : List Host.Command) (outcome : Outcome)

/-- The commands that were carried out for an errand. -/
def Fate.block : Fate → List Host.Command
  | .skipped => []
  | .executed block _ => block

/-- The reports of an episode that is over. -/
def Fate.reports (errand : Errand) : Fate → List Report
  | .skipped => []
  | .executed block outcome =>
    (.begun errand.id errand.request :: performed errand.id block) ++
      [.concluded errand.id outcome]

/-- Why a job with this fate failed, if it did. -/
def Fate.failure? : Fate → Option String
  | .skipped => some cancelledEarlyReason
  | .executed _ outcome => outcome.failure?

/-- How far the pool is with the errand that it has, if it has one. -/
inductive Phase where
  | idle
  | queued (errand : Errand)
  | underWay (errand : Errand) (done : List Host.Command) (stuck : Host.Command)
      (further : List Host.Command)

/-- The errand that the pool has. -/
def Phase.errand? : Phase → Option Errand
  | .idle => none
  | .queued errand | .underWay errand _ _ _ => some errand

/-- The reports of an episode so far. -/
def Phase.reports : Phase → List Report
  | .idle | .queued _ => []
  | .underWay errand done stuck _ =>
    (.begun errand.id errand.request :: performed errand.id done) ++ [.launched errand.id stuck]

/-- What a turn of the worker on an errand comes to, where `before` has been reported of the
errand already, `plan` is what its request calls for, and `cancelled` tells whether its context
was cancelled when it began. -/
inductive Advance (errand : Errand) (world : World) (plan : List Host.Command) (cancelled : Bool)
    (before : List Report) (turn : WorkTurn) : Prop
  | ends (fate : Fate) (script : List Play) (hskipped : fate = .skipped ↔ cancelled = true)
      (hblock : fate.block <+: plan) (hsaid : before ++ turn.said = fate.reports errand)
      (hworld : turn.world = { world with
        store := world.store.apply (.conclude errand.id fate.failure?) world.clock, script })
      (hwaits : turn.waits = none)
  | sticks (done : List Host.Command) (stuck : Host.Command) (further : List Host.Command)
      (ending : Ending) (pause : Pool.Pause) (script : List Play) (hwanted : cancelled = false)
      (hplan : plan = done ++ stuck :: further)
      (hsaid : before ++ turn.said = (Phase.underWay errand done stuck further).reports)
      (hworld : turn.world = { world with script })
      (hwaits : turn.waits = some (.command errand.id stuck ending further, pause))

theorem record_eq (world : World) (id : JobId) (failure : Option String) (now : Timestamp) :
    record world id failure now =
      { world with store := world.store.apply (.conclude id failure) now } := by
  cases failure <;> rfl

theorem performed_append_singleton (id : JobId) (commands : List Host.Command)
    (command : Host.Command) :
    performed id (commands ++ [command]) =
      performed id commands ++ [.launched id command, .stopped id command] := by
  simp [performed]

/-- Concluding an episode ends it with the block of commands performed so far. -/
theorem advance_conclude {errand : Errand} {world : World} {plan : List Host.Command}
    {before said : List Report} (block : List Host.Command) (outcome : Outcome)
    (script : List Play) (hblock : block <+: plan)
    (hsaid : before ++ said = .begun errand.id errand.request :: performed errand.id block) :
    Advance errand world plan false before
      (conclude { world with script } errand.id outcome said) := by
  refine .ends (.executed block outcome) script (by simp) hblock ?_ (record_eq ..) rfl
  rw [conclude, ← List.append_assoc, hsaid]
  rfl

/-- Running the rest of a plan takes the episode on. -/
theorem advance_runCommands {errand : Errand} {context : Pool.Context} {world : World}
    {plan rest : List Host.Command} {before said : List Report} (done : List Host.Command)
    (script : List Play)
    (hplan : plan = done ++ rest)
    (hsaid : before ++ said = .begun errand.id errand.request :: performed errand.id done) :
    Advance errand world plan false before
      (runCommands errand.id context rest { world with script } said) := by
  induction rest generalizing done said script with
  | nil =>
      rw [List.append_nil] at hplan
      exact advance_conclude done .succeeded script (hplan ▸ List.prefix_rfl) hsaid
  | cons command rest ih =>
      have hnext : plan = (done ++ [command]) ++ rest := by
        rw [hplan, List.append_assoc, List.singleton_append]
      have hstopped : before ++ (said ++ [.launched errand.id command] ++
          [.stopped errand.id command]) =
          .begun errand.id errand.request :: performed errand.id (done ++ [command]) := by
        rw [performed_append_singleton, List.append_assoc, ← List.append_assoc, hsaid]
        rfl
      simp only [runCommands]
      split
      · exact ih (done ++ [command]) script.tail hnext hstopped
      next outcome _ =>
        exact advance_conclude _ outcome script.tail (hnext ▸ List.prefix_append ..) hstopped
      next ending pause _ =>
        refine .sticks done command rest ending pause script.tail rfl hplan ?_ rfl rfl
        rw [← List.append_assoc, hsaid]
        rfl

/-- The first turn of an errand starts its episode, or ends it without one. -/
theorem advance_begin (errand : Errand) (context : Pool.Context) (world : World) :
    Advance errand world (planned world.surroundings errand.request) context.cancelled []
      (begin (.job errand.id errand.request) context world) := by
  simp only [begin]
  cases hcancelled : context.cancelled with
  | true =>
      rw [if_pos rfl]
      exact .ends .skipped world.script (by simp) List.nil_prefix rfl
        (record_eq world errand.id (some cancelledEarlyReason) world.clock) rfl
  | false =>
      rw [if_neg Bool.false_ne_true]
      cases hplan : Executor.plan world.surroundings errand.request false with
      | error error =>
          exact advance_conclude [] (.failed error) world.script List.nil_prefix rfl
      | ok commands =>
          have hplanned : planned world.surroundings errand.request = commands := by
            rw [planned, hplan]
            rfl
          exact advance_runCommands [] world.script hplanned rfl

/-- Every later turn takes the episode on. -/
theorem advance_goOn {errand : Errand} {plan done further : List Host.Command}
    {stuck : Host.Command} (hplan : plan = done ++ stuck :: further) (ending : Ending)
    (cue : Pool.Cue) (context : Pool.Context) (world : World) :
    Advance errand world plan false (Phase.underWay errand done stuck further).reports
      (goOn (.command errand.id stuck ending further) cue context world) := by
  have hnext : plan = (done ++ [stuck]) ++ further := by
    rw [hplan, List.append_assoc, List.singleton_append]
  have hstopped : (Phase.underWay errand done stuck further).reports ++
      [.stopped errand.id stuck] =
      .begun errand.id errand.request :: performed errand.id (done ++ [stuck]) := by
    rw [performed_append_singleton, Phase.reports, List.append_assoc]
    rfl
  cases cue with
  | cancel => exact advance_conclude _ _ world.script (hnext ▸ List.prefix_append ..) hstopped
  | wake | release =>
      simp only [goOn]
      split
      · exact advance_runCommands _ world.script hnext hstopped
      · exact advance_conclude _ _ world.script (hnext ▸ List.prefix_append ..) hstopped

end Upkeep.Service
