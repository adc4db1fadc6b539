/-
# The service at rest

After each stimulus the pool of the service has settled, and it has settled at every instant that
is visited while time passes. In all these states it is at rest. So whatever does not reach the pool
leaves the service at rest as well: settling it again has no effect.
-/

import Upkeep.Proofs.Pool.Rest
import Upkeep.Proofs.Service.Run

namespace Upkeep

/-! ## Instants on the way -/

namespace Timeline

variable {α : Type}

/-- What something comes by on its way to a target. -/
inductive Visits (line : Timeline α) (target : Nat) (x : α) : α → Prop
  | start : line.Visits target x x
  | stop {y : α} (hbefore : line.Visits target x y) (hahead : line.now y < target) :
      line.Visits target x (line.arrive (line.nextStop target y) y)

/-- In the end it comes to the target. -/
theorem visits_advance (line : Timeline α) (target : Nat) (x : α) :
    line.Visits target x (line.advance target x) := by
  refine line.runTo_induction_nextStop (P := line.Visits target x) ?_ .start
  exact fun y hbefore hahead => .stop hbefore hahead

end Timeline

namespace Service

/-! ## Settled states -/

namespace State

/-- The settled states that the service comes by while a stimulus is dealt with. -/
def Passes (state : State) : Stimulus → State → Prop
  | .elapse span => line.Visits (state.now + span) state
  | stimulus => (· = state.respond stimulus)

/-- The last of them is the one in which the next stimulus finds the service. -/
theorem passes_respond (state : State) (stimulus : Stimulus) :
    state.Passes stimulus (state.respond stimulus) := by
  cases stimulus with
  | message | release | occupy | closePool | setClock => rfl
  | elapse span => exact line.visits_advance ..

/-! ## What is passed is at rest -/

variable {state between : State}

/-- As time passes the service goes on. -/
theorem goesOn_of_visits (htidy : state.crew.Tidy) {target : Nat}
    (hvisits : line.Visits target state between) : GoesOn state between := by
  induction hvisits with
  | start => exact .refl state
  | stop _ _ hbefore =>
      apply hbefore.trans
      exact goesOn_arrive (tidy_of_moves htidy hbefore.moves) _ _

/-- The sweeps leave the pool as it is, but for the store. -/
theorem crew_sweeps (state : State) :
    ∃ store, state.sweepLimiter.sweepStore.crew =
      { state.crew with world := { state.crew.world with store } } := by
  have hlimiter : state.sweepLimiter.crew = state.crew := by
    rw [sweepLimiter]
    split <;> rfl
  rw [sweepStore]
  split
  · rw [← hlimiter]
    exact ⟨_, rfl⟩
  · exact ⟨state.crew.world.store, hlimiter⟩

theorem atRest_sweeps (hrest : state.crew.AtRest) :
    state.sweepLimiter.sweepStore.crew.AtRest := by
  obtain ⟨store, hswept⟩ := crew_sweeps state
  rw [hswept]
  exact hrest.withWorld _

/-- The service is at rest wherever it arrives. -/
theorem atRest_arrive (htidy : state.crew.Tidy) (span instant : Nat) :
    ((state.tick span).arrive instant).crew.AtRest := by
  have hclocks : Moves state.crew { (state.tick span).crew with now := instant } :=
    (goesOn_tick state span).moves.tail (.change (.clock _ instant))
  apply atRest_sweeps
  exact (tidy_of_moves htidy hclocks).atRest_settle work

theorem atRest_of_visits (htidy : state.crew.Tidy) (hrest : state.crew.AtRest) {target : Nat}
    (hvisits : line.Visits target state between) : between.crew.AtRest := by
  cases hvisits with
  | start => exact hrest
  | stop hbefore =>
      have hgoes := goesOn_of_visits htidy hbefore
      exact atRest_arrive (tidy_of_moves htidy hgoes.moves) _ _

theorem atRest_close (htidy : state.crew.Tidy) (hrest : state.crew.AtRest) (patience : Nat)
    (inFront : Bool) : (state.crew.close work patience inFront).AtRest := by
  rw [Pool.Machine.close_eq]
  split
  · apply Pool.Machine.Tidy.atRest_settle
    have hshut : state.crew.shut.Tidy := htidy.change (b := work) (.shut state.crew)
    split
    · exact hshut.change (b := work) (.step (.giveUp state.crew.shut))
    · exact hshut.change (b := work) (.await _ _ _)
  · exact hrest.note _

/-- The service goes on to whatever it passes from where it met the stimulus. -/
theorem goesOn_of_passes {stimulus : Stimulus} (htidy : (state.meet stimulus).crew.Tidy)
    (hpasses : state.Passes stimulus between) : GoesOn (state.meet stimulus) between := by
  cases stimulus with
  | message | release | occupy | closePool | setClock =>
      obtain rfl : between = state.respond _ := hpasses
      exact goesOn_respond _ htidy
  | elapse span => exact goesOn_of_visits htidy hpasses

/-- Whatever stimulus a service at rest deals with, it is at rest in all states that it passes. -/
theorem atRest_of_passes {stimulus : Stimulus} (htidy : (state.meet stimulus).crew.Tidy)
    (hrest : state.crew.AtRest) (hpasses : state.Passes stimulus between) :
    between.crew.AtRest := by
  cases stimulus with
  | message message =>
      obtain rfl : between = state.respond (.message message) := hpasses
      rw [respond_message]
      exact htidy.atRest_settle work
  | occupy =>
      obtain rfl : between = (state.meet .occupy).settle := hpasses
      exact htidy.atRest_settle work
  | release =>
      obtain rfl : between = state.release := hpasses
      have hworks := Pool.Machine.works_released work (m := state.crew) htidy fun _ => true
      apply Pool.Machine.Tidy.atRest_settle
      exact Pool.Machine.Tidy.steps (b := work) htidy hworks.proceeds.steps
  | setClock reading =>
      obtain rfl : between = state.setClock reading := hpasses
      exact hrest.withWorld _
  | elapse span => exact atRest_of_visits htidy hrest hpasses
  | closePool patience inFront =>
      obtain rfl : between = state.beginClosing patience inFront := hpasses
      exact atRest_close htidy hrest patience inFront

end State

/-- After every run the service is at rest. -/
theorem atRest_run (start : Start) (stimuli : List Stimulus) :
    (start.state.run stimuli).crew.AtRest := by
  suffices h : ∀ (stimuli : List Stimulus) (state : State), state.crew.Tidy →
      state.crew.AtRest → (state.run stimuli).crew.AtRest from
    h stimuli start.state (State.tidy_start start)
      (Pool.Machine.atRest_fresh ..)
  intro stimuli
  induction stimuli with
  | nil => exact fun _ _ hrest => hrest
  | cons stimulus stimuli ih =>
      intro state htidy hrest
      have hmet := State.tidy_meet htidy stimulus
      apply ih _ (State.tidy_respond htidy stimulus)
      exact State.atRest_of_passes hmet hrest (state.passes_respond stimulus)

/-- Settling the service again after a run changes nothing. -/
theorem settle_run (start : Start) (stimuli : List Stimulus) :
    (start.state.run stimuli).settle = start.state.run stimuli := by
  have hsettled := (atRest_run start stimuli).settle_eq work
  rw [State.settle, hsettled]
  rfl

end Service

end Upkeep
