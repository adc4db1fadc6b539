/-
# How long idle keys stay

A key that the limiter tracks goes with the first sweep that finds it idle for too long, and sweeps
come at the end of every minute. So no key has been idle for a minute more than it may.

What carries this over a run is a reckoning from the last end of a minute: at that instant no
tracked key had been idle for longer than allowed. A sweep leaves only such keys, a key that is seen
later was not idle then at all, and until the next end of a minute the instant stays the same. The
clock that the sweeps read goes on with the timers that bring them, so both tell the same instant.
-/

import Upkeep.Proofs.Service.Distrust
import Upkeep.Proofs.Service.Frame
import Upkeep.Proofs.Service.Sweeps

namespace Upkeep.Service

/-! ## Sightings -/

/-- A key, and what the clock that counts from the start showed when the limiter was asked for
it. -/
abbrev Sighting := String × Nat

/-- When a key was last seen. -/
def lastSeen? (sightings : List Sighting) (key : String) : Option Nat :=
  (sightings.reverse.find? fun sighting => sighting.1 = key).map Prod.snd

namespace State

variable {state : State} {stimulus : Stimulus}

/-- The sighting that comes of a stimulus. -/
def sighting? (state : State) : Stimulus → Option Sighting
  | .message message => (state.ruling? message).map fun ruling => (ruling.1, state.uptime)
  | _ => none

/-- The sightings of a run, in order. -/
def sightings (state : State) : List Stimulus → List Sighting
  | [] => []
  | stimulus :: stimuli =>
    (state.sighting? stimulus).toList ++ (state.respond stimulus).sightings stimuli

theorem run_concat (state : State) (before : List Stimulus) (stimulus : Stimulus) :
    state.run (before ++ [stimulus]) = (state.run before).respond stimulus :=
  List.foldl_append ..

theorem sightings_concat (state : State) (before : List Stimulus) (stimulus : Stimulus) :
    state.sightings (before ++ [stimulus]) =
      state.sightings before ++ ((state.run before).sighting? stimulus).toList := by
  induction before generalizing state with
  | nil => simp [sightings, run]
  | cons first before ih =>
      rw [List.cons_append, sightings, ih, sightings, List.append_assoc]
      rfl

/-- The limiter knows of each key that it tracks when this key was last seen. -/
def Remembers (state : State) (sightings : List Sighting) : Prop :=
  ∀ entry ∈ state.limiter.tracked, ∃ seen : Nat,
    lastSeen? sightings entry.key = some seen ∧ entry.lastSeen = seen

/-- The limiter has counted a message or has not been asked. -/
theorem limiter_answer (state : State) (message : Http.Request) :
    (answer state message).2.limiter =
      if (state.ruling? message).isSome then (state.count message).2 else state.limiter := by
  have hacted : ∀ {counted after : State} {response : Http.Response},
      Acted counted response after → after.limiter = counted.limiter := by
    intro counted after response hacted
    cases hacted <;> rfl
  have hdealt := dealt_answer state message
  generalize (answer state message).1 = response at hdealt
  generalize (answer state message).2 = after at hdealt ⊢
  cases hdealt with
  | nowhere hpath => simp [ruling?, hpath]
  | limited hroute hlimited => simp [ruling?, hroute, Option.filter, hlimited, counted]
  | aside hroute _ _ hafter =>
      rw [hafter]
      split
      next hlimited => simp [ruling?, hroute, Option.filter, hlimited, counted]
      next hfree => simp [ruling?, hroute, Option.filter, hfree]
  | action hasks =>
      rw [hacted (acted_answerAction ..)]
      simp [ruling?, hasks.1, Option.filter, Route.isLimited, counted]

/-- Whatever takes no time leaves the limiter as it is, or makes it see a key now. -/
theorem limiter_respond (state : State) (hinstant : ∀ span, stimulus ≠ .elapse span) :
    (state.respond stimulus).limiter = state.limiter ∧ state.sighting? stimulus = none ∨
      ∃ key, state.sighting? stimulus = some (key, state.uptime) ∧
        (state.respond stimulus).limiter = (state.limiter.allow key state.uptime).2 := by
  cases stimulus with
  | message message =>
      have hlimiter : (state.respond (.message message)).limiter =
          if (state.ruling? message).isSome then (state.count message).2 else state.limiter :=
        limiter_answer state message
      cases hruling : state.ruling? message with
      | none => exact .inl ⟨by rw [hlimiter, hruling]; rfl, by rw [sighting?, hruling]; rfl⟩
      | some ruling =>
          have hkey : ruling.1 =
              RateLimit.clientKey message.headers message.peer state.setup.trustProxy := by
            obtain ⟨_, -, rfl⟩ := Option.map_eq_some_iff.1 hruling
            rfl
          refine .inr ⟨ruling.1, by rw [sighting?, hruling]; rfl, ?_⟩
          rw [hlimiter, hruling, hkey]
          rfl
  | elapse span => exact absurd rfl (hinstant span)
  | release | occupy | closePool | setClock => exact .inl ⟨rfl, rfl⟩

/-- Of a key that is seen now, the limiter has an entry that says so; all others are old. -/
theorem mem_tracked_allow {α : Type} [RateLimit.Arithmetic α] {limiter : RateLimit.Limiter α}
    {key : String} {now : Int} {entry : RateLimit.Tracked α}
    (hentry : entry ∈ (limiter.allow key now).2.tracked) :
    entry.key = key ∧ entry.lastSeen = now ∨ entry.key ≠ key ∧ entry ∈ limiter.tracked := by
  obtain ⟨bucket, htracked⟩ := limiter.exists_tracked_allow key now
  rw [htracked, List.mem_append, List.mem_singleton] at hentry
  rcases hentry with hother | rfl
  · obtain ⟨hroom, hkey⟩ := RateLimit.Limiter.mem_without.1 hother
    exact .inr ⟨hkey, (limiter.roomFor_sublist key).subset hroom⟩
  · exact .inl ⟨rfl, rfl⟩

/-- What is remembered goes on with what is seen at once. -/
theorem Remembers.respond {sightings : List Sighting} (hremembers : state.Remembers sightings)
    (hinstant : ∀ span, stimulus ≠ .elapse span) :
    (state.respond stimulus).Remembers (sightings ++ (state.sighting? stimulus).toList) := by
  intro entry hentry
  obtain ⟨hlimiter, hunseen⟩ | ⟨key, hseen, hlimiter⟩ := state.limiter_respond hinstant
  · rw [hunseen, Option.toList_none, List.append_nil]
    exact hremembers entry (hlimiter ▸ hentry)
  · rw [hlimiter] at hentry
    rw [hseen, Option.toList_some, lastSeen?, List.reverse_append]
    rcases mem_tracked_allow hentry with ⟨hkey, hnow⟩ | ⟨hkey, hold⟩
    · exact ⟨state.uptime, by simp [hkey], hnow⟩
    · obtain ⟨seen, hlast, hknown⟩ := hremembers entry hold
      refine ⟨seen, ?_, hknown⟩
      rw [← hlast, lastSeen?]
      simp [hkey.symm]

end State

/-! ## The reckoning -/

/-- The last end of a minute. -/
def lastSweep (instant : Nat) : Nat :=
  instant / RateLimit.sweepInterval * RateLimit.sweepInterval

theorem lastSweep_le (instant : Nat) : lastSweep instant ≤ instant :=
  Nat.div_mul_le_self ..

/-- It is less than a minute ago. -/
theorem lt_lastSweep_add (instant : Nat) :
    instant < lastSweep instant + RateLimit.sweepInterval := by
  have hmod := Nat.mod_lt instant (show 0 < RateLimit.sweepInterval by decide)
  have hdiv := Nat.div_add_mod' instant RateLimit.sweepInterval
  rw [lastSweep]
  omega

theorem lastSweep_of_dvd {instant : Nat} (hminute : RateLimit.sweepInterval ∣ instant) :
    lastSweep instant = instant :=
  Nat.div_mul_cancel hminute

/-- A stop that is not the end of a minute falls into the same minute. -/
theorem lastSweep_stop {between : State} {target : Nat} (hahead : between.now < target)
    (hbetween : ¬ RateLimit.sweepInterval ∣ between.stop target) :
    lastSweep (between.stop target) = lastSweep between.now := by
  have hlater : between.now < between.stop target := (State.line.lt_nextStop_le hahead).1
  have hnext : between.stop target < between.nextSweep := by
    apply Nat.lt_of_le_of_ne (between.stop_le_nextSweep target)
    intro hstop
    exact hbetween (hstop ▸ Nat.dvd_mul_left _ _)
  rw [State.nextSweep, Nat.mul_comm] at hnext
  have hsame : between.stop target / RateLimit.sweepInterval =
      between.now / RateLimit.sweepInterval := by
    apply Nat.le_antisymm (Nat.le_of_lt_succ (Nat.div_lt_of_lt_mul hnext))
    exact Nat.div_le_div_right (Nat.le_of_lt hlater)
  rw [lastSweep, lastSweep, hsame]

/-- What holds of the limiter in all states that a run passes. -/
structure Watched (idleTime : Nat) (sightings : List Sighting) (state : State) : Prop where
  limits : state.limiter.limits.idleTime = idleTime
  inStep : state.uptime = state.now
  remembers : state.Remembers sightings
  fresh : ∀ entry ∈ state.limiter.tracked,
    (lastSweep state.now : Int) - entry.lastSeen ≤ idleTime

namespace Watched

variable {idleTime : Nat} {sightings : List Sighting} {state between : State}
variable {stimulus : Stimulus}

/-- Reckoned from the last end of a minute, a key has been idle for less than a minute more than it
may. -/
theorem idle (hwatched : Watched idleTime sightings state) {entry : RateLimit.Tracked Double}
    (hentry : entry ∈ state.limiter.tracked) :
    ∃ seen, lastSeen? sightings entry.key = some seen ∧
      state.uptime < seen + idleTime + RateLimit.sweepInterval := by
  obtain ⟨seen, hlast, hseen⟩ := hwatched.remembers entry hentry
  have hfresh := hwatched.fresh entry hentry
  have hminute := lt_lastSweep_add state.now
  refine ⟨seen, hlast, ?_⟩
  rw [hwatched.inStep]
  omega

/-- Whatever takes no time only lets keys be seen now. -/
theorem respond (hwatched : Watched idleTime sightings state)
    (hinstant : ∀ span, stimulus ≠ .elapse span) :
    Watched idleTime (sightings ++ (state.sighting? stimulus).toList)
      (state.respond stimulus) := by
  obtain ⟨hnow, huptime⟩ := state.clocks_respond hinstant
  have hremembers := hwatched.remembers.respond hinstant
  obtain ⟨hlimiter, -⟩ | ⟨key, -, hlimiter⟩ := state.limiter_respond hinstant
  · refine ⟨?_, by rw [huptime, hnow, hwatched.inStep], hremembers, ?_⟩
    · rw [hlimiter, hwatched.limits]
    · rw [hlimiter, hnow]
      exact hwatched.fresh
  · refine ⟨?_, by rw [huptime, hnow, hwatched.inStep], hremembers, ?_⟩
    · rw [hlimiter]
      exact hwatched.limits
    · intro entry hentry
      rw [hlimiter] at hentry
      rw [hnow]
      rcases State.mem_tracked_allow hentry with ⟨-, hseen⟩ | ⟨-, hold⟩
      · have hpast := lastSweep_le state.now
        have hclock := hwatched.inStep
        omega
      · exact hwatched.fresh entry hold

/-- At a stop the sweeps take the keys that have been idle for too long. -/
theorem stop (hwatched : Watched idleTime sightings between) {target : Nat}
    (hahead : between.now < target) :
    Watched idleTime sightings
      (between.arrival (between.stop target)).sweepLimiter.sweepStore := by
  have hlater : between.now < between.stop target := (State.line.lt_nextStop_le hahead).1
  have hclock : (between.arrival (between.stop target)).uptime = between.stop target := by
    rw [State.uptime_arrival, hwatched.inStep]
    omega
  have htracked := State.tracked_sweeps (between.arrival (between.stop target))
  rw [State.now_arrival, State.limiter_arrival, hwatched.limits, hclock] at htracked
  refine ⟨?_, ?_, ?_, ?_⟩
  · rw [State.limits_sweeps, State.limiter_arrival, hwatched.limits]
  · rw [State.uptime_sweeps, State.now_sweeps, hclock, State.now_arrival]
  · intro entry hentry
    rw [htracked] at hentry
    exact hwatched.remembers entry (List.mem_of_mem_filter hentry)
  · intro entry hentry
    rw [htracked, List.mem_filter] at hentry
    rw [State.now_sweeps, State.now_arrival]
    by_cases hminute : RateLimit.sweepInterval ∣ between.stop target
    · rw [lastSweep_of_dvd hminute]
      exact of_decide_eq_true hentry.2 hminute
    · rw [lastSweep_stop hahead hminute]
      exact hwatched.fresh entry hentry.1

/-- It stays so at every stop on the way through time. -/
theorem visits (hwatched : Watched idleTime sightings state) {target : Nat}
    (hvisits : State.line.Visits target state between) : Watched idleTime sightings between := by
  induction hvisits with
  | start => exact hwatched
  | stop _ hahead ih =>
      rw [State.line_arrive]
      exact ih.stop hahead

/-- It stays so whatever comes. -/
theorem passes (hwatched : Watched idleTime sightings state)
    (hpasses : state.Passes stimulus between) :
    Watched idleTime (sightings ++ (state.sighting? stimulus).toList) between := by
  cases stimulus with
  | elapse span =>
      show Watched idleTime (sightings ++ []) between
      rw [List.append_nil]
      exact hwatched.visits hpasses
  | message | release | occupy | closePool | setClock =>
      obtain rfl : between = state.respond _ := hpasses
      exact hwatched.respond nofun

end Watched

theorem watched_run (start : Start) (stimuli : List Stimulus) :
    Watched start.limits.idleTime (start.state.sightings stimuli) (start.state.run stimuli) := by
  induction stimuli using List.reverseRecOn with
  | nil => exact ⟨rfl, rfl, nofun, nofun⟩
  | append_singleton before stimulus ih =>
      rw [State.run_concat, State.sightings_concat]
      exact ih.passes (State.passes_respond _ stimulus)

/-- In all states that a run passes, no key that the limiter tracks was last seen as long ago as an
idle key is kept and a minute more. Sweeps come at every end of a minute. From the limiter they take
the keys that were last seen longer ago than an idle key is kept, and at the end of an hour from the
history the jobs that were started more than a day before the moment that the calendar clock shows.
All other keys and jobs they leave, the job in the slot among them. -/
theorem sweeps_of_run (start : Start) (before : List Stimulus) (stimulus : Stimulus) :
    let found := start.state.run before
    let sightings := start.state.sightings (before ++ [stimulus])
    (∀ state, found.Passes stimulus state → ∀ entry ∈ state.limiter.tracked,
      ∃ seen, lastSeen? sightings entry.key = some seen ∧
        state.uptime < seen + start.limits.idleTime + RateLimit.sweepInterval) ∧
    (∀ instant, found.now < instant → instant ≤ (found.respond stimulus).now →
      RateLimit.sweepInterval ∣ instant → ∃ met, found.Finds stimulus met ∧ met.now = instant) ∧
    ∀ met, found.Finds stimulus met →
      let left := met.sweepLimiter.sweepStore
      found.Passes stimulus left ∧
      met.Remembers sightings ∧
      left.limiter.tracked = (met.limiter.tracked.filter fun entry =>
        RateLimit.sweepInterval ∣ met.now →
          (met.uptime : Int) - entry.lastSeen ≤ start.limits.idleTime) ∧
      left.store.current = met.store.current ∧
      left.store.history = (met.store.history.filter fun job =>
        Store.sweepInterval ∣ met.now → job.age met.clock ≤ (Store.defaultMaxAge : Int)) := by
  intro found sightings
  have hwatched := watched_run start before
  have hpassed : ∀ state, found.Passes stimulus state →
      Watched start.limits.idleTime sightings state := by
    intro state hpasses
    have hstate := hwatched.passes hpasses
    rwa [← State.sightings_concat] at hstate
  refine ⟨fun state hpasses _ => (hpassed state hpasses).idle,
    fun _ => State.exists_finds_of_dvd, ?_⟩
  intro met hfinds left
  have hleft := State.passes_of_finds hfinds
  have hstore := State.store_sweeps met
  cases stimulus with
  | message | release | occupy | closePool | setClock => exact hfinds.elim
  | elapse span =>
      obtain ⟨between, hleaves, rfl⟩ := hfinds
      have hbetween := hpassed between hleaves.visits
      have htracked := State.tracked_sweeps (between.arrival (between.stop (found.now + span)))
      rw [State.limiter_arrival, hbetween.limits] at htracked
      exact ⟨hleft, hbetween.remembers, htracked, hstore.1, hstore.2⟩

end Upkeep.Service
