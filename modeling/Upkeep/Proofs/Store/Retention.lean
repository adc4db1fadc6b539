/-
# How old finished jobs may be

A sweep turns the age that it is given into an earliest start, and two things are cut off on the
way: an age that is too long to be counted becomes the longest one that can be, and a start that
would lie before the calendar begins becomes its first moment. Neither is ever noticed. The calendar
is shorter than the longest age, so both cases keep every job, as they should.

So which jobs a sweep keeps is told by their ages alone, which are whole numbers without bounds
here: they may be negative, as the clock may have been set back.
-/

import Upkeep.Store

namespace Upkeep

/-- Nanoseconds from the start of a job to a moment, negative if the job started later. -/
def Job.age (job : Job) (now : Timestamp) : Int :=
  now.nanos - job.started.nanos

namespace Timestamp

/-- The moment nearest to a number is no later than another moment if the number is not. -/
theorem clamp_le_iff {nanos : Int} (hnanos : nanos ≤ latest) (t : Timestamp) :
    clamp nanos ≤ t ↔ nanos ≤ t.nanos := by
  have hearliest := t.earliest_le
  by_cases hearly : nanos < earliest
  · have hclamped : (clamp nanos).nanos = earliest := by rw [clamp, dif_pos hearly]
    show (clamp nanos).nanos ≤ t.nanos ↔ _
    rw [hclamped]
    exact ⟨fun _ => Int.le_trans (Int.le_of_lt hearly) hearliest, fun _ => hearliest⟩
  · show (clamp nanos).nanos ≤ t.nanos ↔ _
    rw [nanos_clamp (Int.not_lt.1 hearly) hnanos]

/-- Going back from a moment stops at the beginning of the calendar, which nothing precedes. -/
theorem before_le_iff (now t : Timestamp) (span : Nat) :
    now.before span ≤ t ↔ now.nanos - t.nanos ≤ span := by
  have hlatest : now.nanos - span ≤ latest := by
    have := now.le_latest
    omega
  rw [before, clamp_le_iff hlatest]
  omega

/-- No two moments are as far apart as the longest age. -/
theorem sub_lt_longestAge (now t : Timestamp) :
    now.nanos - t.nanos < Store.longestAge := by
  have hwhole : latest - earliest < Store.longestAge := by decide
  have hearliest := t.earliest_le
  have hlatest := now.le_latest
  omega

end Timestamp

namespace Store

/-- A job passes a sweep if it is no older than the sweep allows. -/
theorem cutoff_le_started_iff (maxAge : Nat) (now : Timestamp) (job : Job) :
    cutoff maxAge now ≤ job.started ↔ job.age now ≤ maxAge := by
  have hshort := now.sub_lt_longestAge job.started
  rw [cutoff, Timestamp.before_le_iff, Job.age]
  omega

theorem history_sweep (store : Store) (maxAge : Nat) (now : Timestamp) :
    (store.sweep maxAge now).history =
      store.history.filter fun job => job.age now ≤ (maxAge : Int) := by
  apply List.filter_congr
  intro job _
  rw [decide_eq_decide]
  exact cutoff_le_started_iff maxAge now job

/-- What a sweep does not keep, it counts. -/
theorem sweepCount_eq (store : Store) (maxAge : Nat) (now : Timestamp) :
    store.sweepCount maxAge now = store.history.countP fun job => (maxAge : Int) < job.age now := by
  have hparts := List.length_eq_countP_add_countP
    (fun job : Job => decide (job.age now ≤ (maxAge : Int))) (l := store.history)
  have hold : (fun job : Job => decide ¬decide (job.age now ≤ (maxAge : Int)) = true) =
      fun job : Job => decide ((maxAge : Int) < job.age now) := by
    funext job
    simp
  rw [hold] at hparts
  rw [sweepCount, history_sweep, ← List.countP_eq_length_filter]
  omega

/-- Of two sweeps at one moment, only the stricter one matters. -/
theorem sweep_sweep (store : Store) (maxAge furtherAge : Nat) (now : Timestamp) :
    (store.sweep maxAge now).sweep furtherAge now = store.sweep (min maxAge furtherAge) now := by
  have hhistory : ((store.sweep maxAge now).sweep furtherAge now).history =
      (store.sweep (min maxAge furtherAge) now).history := by
    rw [history_sweep, history_sweep, history_sweep, List.filter_filter]
    apply List.filter_congr
    intro job _
    rw [← Bool.decide_and, decide_eq_decide]
    omega
  exact congrArg (Store.mk store.maxHistory store.current) hhistory

/-- A sweep keeps the finished jobs that are no older than it allows, in their order, whatever the
age, the clock and the store are. It counts the others, leaves the slot alone, and a further sweep
at the same moment does what the stricter one of both would do alone. -/
theorem exact_of_sweep (store : Store) (maxAge : Nat) (now : Timestamp) :
    (store.sweep maxAge now).history =
        (store.history.filter fun job => job.age now ≤ (maxAge : Int)) ∧
      (store.sweep maxAge now).current = store.current ∧
      store.sweepCount maxAge now =
        (store.history.countP fun job => (maxAge : Int) < job.age now) ∧
      ∀ furtherAge, (store.sweep maxAge now).sweep furtherAge now =
        store.sweep (min maxAge furtherAge) now :=
  ⟨store.history_sweep maxAge now, rfl, store.sweepCount_eq maxAge now,
    fun furtherAge => store.sweep_sweep maxAge furtherAge now⟩

end Store

end Upkeep
