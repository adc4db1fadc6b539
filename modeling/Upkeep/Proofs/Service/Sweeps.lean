/-
# When sweeps come, and what they take

Sweeps come only while time passes. At each stop on the way the clocks of the host have gone on, the
pool does what is due, and then the sweeps find the service as it is. No end of a minute is passed
over, since it is always among the instants at which something is due.

What a sweep takes is told by ages alone: of keys since they were last seen, of finished jobs since
they were started. It never takes the job in the slot.

The sweeps go on for as long as a run does, also while the pool is closing. Of the time after they
have been stopped together with the whole program nothing is claimed.
-/

import Upkeep.Proofs.Service.Rest
import Upkeep.Proofs.Store.Retention

namespace Upkeep.Service.State

/-! ## Stops -/

/-- The instant of the next stop on the way to a target. -/
def stop (state : State) (target : Nat) : Nat :=
  line.nextStop target state

/-- The service at an instant, as the sweeps find it: the clocks have gone on, and the pool has done
what is due. -/
def arrival (state : State) (instant : Nat) : State :=
  let ticked := state.tick (instant - state.now)
  ticked.withCrew (ticked.crew.arrive work instant)

/-- On the way to a target the service comes by a state and goes on from there. -/
structure Leaves (state : State) (target : Nat) (between : State) : Prop where
  visits : line.Visits target state between
  ahead : between.now < target

section Stops

variable {state between : State} {target : Nat}

theorem now_arrival (state : State) (instant : Nat) : (state.arrival instant).now = instant :=
  (Pool.Machine.line work).now_arrive ..

theorem uptime_arrival (state : State) (instant : Nat) :
    (state.arrival instant).uptime = state.uptime + (instant - state.now) :=
  rfl

theorem limiter_arrival (state : State) (instant : Nat) :
    (state.arrival instant).limiter = state.limiter :=
  rfl

theorem line_arrive (state : State) (instant : Nat) :
    line.arrive instant state = (state.arrival instant).sweepLimiter.sweepStore := by
  simp only [line, arrive, arrival]

/-- After the sweeps the service comes by what they have left. -/
theorem Leaves.visits_sweeps (hleaves : state.Leaves target between) :
    line.Visits target state (between.arrival (between.stop target)).sweepLimiter.sweepStore := by
  rw [← line_arrive]
  exact .stop hleaves.visits hleaves.ahead

theorem Leaves.now_lt_stop (hleaves : state.Leaves target between) :
    between.now < between.stop target :=
  (line.lt_nextStop_le hleaves.ahead).1

/-- Something is always due, ahead but no later than at the end of the minute. -/
theorem exists_next (state : State) :
    ∃ next, line.next? state = some next ∧ state.now < next ∧ next ≤ state.nextSweep := by
  have hminute : state.now < state.nextSweep := by
    rw [nextSweep, Nat.mul_comm]
    exact Nat.lt_mul_div_succ state.now (by decide)
  simp only [line]
  cases hmin : state.crew.dueInstants.min? with
  | none =>
      rw [Option.map_none, Option.getD_none]
      exact ⟨_, rfl, hminute, Nat.le_refl _⟩
  | some due =>
      have hdue : state.now < due :=
        of_decide_eq_true (List.mem_filter.1 (List.min?_eq_some_iff.1 hmin).1).2
      rw [Option.map_some, Option.getD_some]
      exact ⟨_, rfl, Nat.lt_min.2 ⟨hminute, hdue⟩, Nat.min_le_left _ _⟩

/-- The service stops at the end of the minute, if not before. -/
theorem stop_le_nextSweep (state : State) (target : Nat) :
    state.stop target ≤ state.nextSweep := by
  obtain ⟨next, hnext, hahead, hminute⟩ := state.exists_next
  rw [stop, Timeline.nextStop, hnext]
  dsimp only
  split
  next => exact hminute
  next hbehind =>
    have htarget : target ≤ next := Nat.le_of_not_lt fun hnear => hbehind ⟨hahead, hnear⟩
    exact htarget.trans hminute

/-- Every end of a minute on the way to a target is one of the stops. -/
theorem exists_leaves_of_dvd {instant : Nat} (hlater : state.now < instant)
    (hreached : instant ≤ target) (hminute : RateLimit.sweepInterval ∣ instant) :
    ∃ between, state.Leaves target between ∧ between.stop target = instant := by
  suffices h : ∀ between, line.Visits target state between → between.now < instant →
      ∃ between, state.Leaves target between ∧ between.stop target = instant from
    h state .start hlater
  intro between
  -- The induction is on the time that is left until the instant.
  induction hleft : instant - between.now using Nat.strong_induction_on generalizing between with
  | _ left ih =>
      intro hvisits hbefore
      have hleaves : state.Leaves target between := ⟨hvisits, hbefore.trans_le hreached⟩
      have hahead := hleaves.now_lt_stop
      have hnow : (between.arrival (between.stop target)).sweepLimiter.sweepStore.now =
          between.stop target := line.now_arrive ..
      rcases Nat.lt_or_ge (between.stop target) instant with hnext | hpast
      · rw [← hnow] at hnext hahead
        exact ih _ (by omega) _ rfl hleaves.visits_sweeps hnext
      · -- There is no end of a minute before the next one.
        have hnextSweep : between.nextSweep ≤ instant := by
          obtain ⟨minutes, rfl⟩ := hminute
          rw [nextSweep, Nat.mul_comm]
          apply Nat.mul_le_mul_left
          exact Nat.div_lt_of_lt_mul hbefore
        have hstop := (between.stop_le_nextSweep target).trans hnextSweep
        exact ⟨between, hleaves, Nat.le_antisymm hstop hpast⟩

end Stops

/-! ## What the sweeps find -/

/-- While it deals with a stimulus, the service is found in a state by the sweeps: only while time
passes, and at every stop. -/
def Finds (state : State) : Stimulus → State → Prop
  | .elapse span, met => ∃ between, state.Leaves (state.now + span) between ∧
      met = between.arrival (between.stop (state.now + span))
  | _, _ => False

section Finds

variable {state : State} {stimulus : Stimulus}

/-- Whatever is not a passing of time takes none. -/
theorem clocks_respond (state : State) (hinstant : ∀ span, stimulus ≠ .elapse span) :
    (state.respond stimulus).now = state.now ∧
      (state.respond stimulus).uptime = state.uptime := by
  cases stimulus with
  | message message =>
      have hanswer : (answer state message).2.now = state.now ∧
          (answer state message).2.uptime = state.uptime := by
        have hreply := reply_answer state message
        generalize (answer state message).1 = response at hreply
        generalize (answer state message).2 = after at hreply ⊢
        cases hreply <;> exact ⟨rfl, rfl⟩
      exact ⟨(Pool.Machine.now_settle ..).trans hanswer.1, hanswer.2⟩
  | elapse span => exact absurd rfl (hinstant span)
  | release =>
      refine ⟨(Pool.Machine.now_settle ..).trans ?_, rfl⟩
      exact Pool.Machine.now_foldl
        (fun m _ => (Pool.Machine.now_refill work m _).trans (Pool.Machine.now_resume ..)) ..
  | occupy =>
      refine ⟨(Pool.Machine.now_settle ..).trans ?_, rfl⟩
      obtain ⟨-, -, hsubmit⟩ | ⟨error, -, hsubmit⟩ := state.crew.submit_cases .occupation <;>
        exact (congrArg (·.2.now) hsubmit).trans rfl
  | closePool patience inFront => exact ⟨Pool.Machine.now_close .., rfl⟩
  | setClock reading => exact ⟨rfl, rfl⟩

/-- The service is found at every end of a minute that it gets to. -/
theorem exists_finds_of_dvd {instant : Nat} (hlater : state.now < instant)
    (hreached : instant ≤ (state.respond stimulus).now)
    (hminute : RateLimit.sweepInterval ∣ instant) :
    ∃ met, state.Finds stimulus met ∧ met.now = instant := by
  by_cases hinstant : ∀ span, stimulus ≠ .elapse span
  · rw [(state.clocks_respond hinstant).1] at hreached
    exact absurd hreached (Nat.not_le_of_lt hlater)
  · push Not at hinstant
    obtain ⟨span, rfl⟩ := hinstant
    have htarget : (state.respond (.elapse span)).now ≤ state.now + span :=
      line.now_runTo_le _ (Nat.le_add_right _ _)
    obtain ⟨between, hleaves, hstop⟩ :=
      exists_leaves_of_dvd hlater (hreached.trans htarget) hminute
    exact ⟨_, ⟨between, hleaves, rfl⟩, (now_arrival ..).trans hstop⟩

/-- What the sweeps leave is passed. -/
theorem passes_of_finds {met : State} (hfinds : state.Finds stimulus met) :
    state.Passes stimulus met.sweepLimiter.sweepStore := by
  cases stimulus with
  | message | release | occupy | closePool | setClock => exact hfinds.elim
  | elapse span =>
      obtain ⟨between, hleaves, rfl⟩ := hfinds
      exact hleaves.visits_sweeps

end Finds

/-! ## What the sweeps take -/

section Sweeps

variable (met : State)

theorem limits_sweeps : met.sweepLimiter.sweepStore.limiter.limits = met.limiter.limits := by
  unfold sweepStore sweepLimiter
  split <;> split <;> rfl

theorem now_sweeps : met.sweepLimiter.sweepStore.now = met.now := by
  unfold sweepStore sweepLimiter
  split <;> split <;> rfl

theorem uptime_sweeps : met.sweepLimiter.sweepStore.uptime = met.uptime := by
  unfold sweepStore sweepLimiter
  split <;> split <;> rfl

/-- At the end of a minute the limiter loses the keys that it has not seen for too long. -/
theorem tracked_sweeps : met.sweepLimiter.sweepStore.limiter.tracked =
    met.limiter.tracked.filter fun entry => RateLimit.sweepInterval ∣ met.now →
      (met.uptime : Int) - entry.lastSeen ≤ met.limiter.limits.idleTime := by
  have hlimiter : met.sweepLimiter.sweepStore.limiter = met.sweepLimiter.limiter := by
    unfold sweepStore
    split <;> rfl
  rw [hlimiter, sweepLimiter]
  split
  next hminute =>
    apply List.filter_congr
    intro entry _
    have hdvd := Nat.dvd_of_mod_eq_zero hminute
    simp only [RateLimit.Limiter.isFresh, hdvd, true_imp_iff, decide_eq_decide]
    omega
  next hbetween =>
    have hndvd : ¬ RateLimit.sweepInterval ∣ met.now :=
      fun hdvd => hbetween (Nat.mod_eq_zero_of_dvd hdvd)
    simp [hndvd]

/-- At the end of an hour the store loses the finished jobs that were started too long ago. -/
theorem store_sweeps : met.sweepLimiter.sweepStore.store.current = met.store.current ∧
    met.sweepLimiter.sweepStore.store.history =
      met.store.history.filter fun job => Store.sweepInterval ∣ met.now →
        job.age met.clock ≤ (Store.defaultMaxAge : Int) := by
  have hcrew : met.sweepLimiter.crew = met.crew := by
    unfold sweepLimiter
    split <;> rfl
  have hnow : met.sweepLimiter.now = met.now := congrArg (·.now) hcrew
  have hstore : met.sweepLimiter.store = met.store := congrArg (·.world.store) hcrew
  have hclock : met.sweepLimiter.clock = met.clock := congrArg (·.world.clock) hcrew
  rw [sweepStore, hnow, hstore, hclock]
  split
  next hhour =>
    refine ⟨rfl, ?_⟩
    have hdvd := Nat.dvd_of_mod_eq_zero hhour
    simp only [hdvd, true_imp_iff]
    exact met.store.history_sweep Store.defaultMaxAge met.clock
  next hbetween =>
    have hndvd : ¬ Store.sweepInterval ∣ met.now :=
      fun hdvd => hbetween (Nat.mod_eq_zero_of_dvd hdvd)
    rw [hstore]
    simp [hndvd]

end Sweeps

end Upkeep.Service.State
