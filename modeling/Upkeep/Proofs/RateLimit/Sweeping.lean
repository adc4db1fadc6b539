/-
# What sweeps can change

A sweep is there to save room, and should not be noticed otherwise. A key that it drops will find a
full bucket, so it is not noticed if the bucket would have been full again anyway: then all levels
are what they would be without sweeps, and an answer depends on nothing but a level.

A sweep goes by the instant at which an entry was last seen. That is the instant of the last call
for the key, also if an earlier one has read the clock later. So which keys survive a sweep is told
by their last calls alone, and the law that recently seen keys do takes that no call is overtaken.
-/

import Upkeep.Proofs.RateLimit.Independence

namespace Upkeep.RateLimit

/-! ## Runs without their sweeps -/

/-- The calls for keys among some calls. -/
def withoutSweeps (calls : List Call) : List Call :=
  calls.filter fun call => call.key?.isSome

theorem withoutSweeps_sublist (calls : List Call) : (withoutSweeps calls).Sublist calls :=
  List.filter_sublist

theorem withoutSweeps_concat_allow (calls : List Call) (key : String) (now : Int) :
    withoutSweeps (calls ++ [.allow key now]) = withoutSweeps calls ++ [.allow key now] :=
  List.filter_append ..

theorem withoutSweeps_concat_sweep (calls : List Call) (now : Int) :
    withoutSweeps (calls ++ [.sweep now]) = withoutSweeps calls :=
  (List.filter_append ..).trans (List.append_nil _)

namespace Limiter

variable {limits : Limits Rat} {calls : List Call} {now : Int}

/-- If each call for a key is answered as it would be without the sweeps before it, then so are all
calls. -/
theorem answers_withoutSweeps
    (heach : ∀ before key now after, calls = before ++ .allow key now :: after →
      (((ofLimits limits).run before).allow key now).1 =
        (((ofLimits limits).run (withoutSweeps before)).allow key now).1) :
    (ofLimits limits).answers calls = (ofLimits limits).answers (withoutSweeps calls) := by
  induction calls using List.reverseRecOn with
  | nil => rfl
  | append_singleton calls call ih =>
      have hbefore := ih fun before key now after hsplit =>
        heach before key now (after ++ [call]) (by simp [hsplit])
      cases call with
      | sweep now =>
          rw [withoutSweeps_concat_sweep, answers_concat, hbefore]
          exact List.append_nil _
      | allow key now =>
          rw [withoutSweeps_concat_allow, answers_concat, answers_concat, hbefore, answer?, answer?,
            heach calls key now [] rfl]

/-- Buckets that hold nothing give nothing. -/
theorem allow_of_no_burst {limiter : Limiter Rat} (hburst : limiter.limits.burst = 0)
    (key : String) (now : Int) : (limiter.allow key now).1 = false := by
  obtain ⟨bucket, -, hanswer, -⟩ := limiter.exists_allow_eq key now
  obtain ⟨verdict, hone, htake⟩ := bucket.exists_take_eq limiter.limits.rate
    (Arithmetic.ofCount limiter.limits.burst) now
  have hburst : (Arithmetic.ofCount limiter.limits.burst : Rat) = 0 :=
    (congrArg (Nat.cast : Nat → Rat) hburst).trans Nat.cast_zero
  rw [hanswer, htake, Bool.eq_false_iff]
  intro hverdict
  have hfound := (hone.1 hverdict).trans (min_le_right ..)
  rw [hburst] at hfound
  exact absurd hfound (by norm_num)

/-- Calls for a key are answered alike where it has the same level, and leave all levels the same
that were. -/
theorem Current.allow_alike {limiter plain : Limiter Rat} {key : String}
    (hcurrent : limiter.Current now) (hplain : plain.Current now)
    (hroom : limiter.roomFor key = limiter.tracked) (hplainRoom : plain.roomFor key = plain.tracked)
    (hlevels : ∀ key, limiter.level key now = plain.level key now) :
    (limiter.allow key now).1 = (plain.allow key now).1 ∧
      ∀ other, (limiter.allow key now).2.level other now =
        (plain.allow key now).2.level other now := by
  have hanswer : (limiter.allow key now).1 = (plain.allow key now).1 := by
    rw [(hcurrent.allow_eq key).1, (hplain.allow_eq key).1, hlevels]
  refine ⟨hanswer, fun other => ?_⟩
  by_cases hother : other = key
  · rw [hother, hcurrent.level_allow_self, hplain.level_allow_self, levelAfter, levelAfter,
      hanswer, hlevels]
  · rw [level_allow_other hroom hother, level_allow_other hplainRoom hother, hlevels]

/-- Before each call, no entry is ahead of it, and nor is one without the sweeps. -/
theorem current_of_orderly (hrate : 0 < limits.rate) {call : Call}
    (horderly : Orderly limits (calls ++ [call])) :
    ((ofLimits limits).run calls).Current call.instant ∧
      ((ofLimits limits).run (withoutSweeps calls)).Current call.instant := by
  constructor
  · exact current_run hrate horderly.left.forward horderly.instant_le
  · apply current_run hrate (horderly.left.sublist (withoutSweeps_sublist _)).forward
    intro earlier hearlier
    exact horderly.instant_le earlier ((withoutSweeps_sublist calls).subset hearlier)

/-- Where a bucket is full again by the time at which a sweep may drop it, sweeps leave every level
what it would be without them. -/
theorem level_withoutSweeps (hrate : 0 < limits.rate)
    (hfull : (limits.burst : Rat) ≤ limits.rate * seconds limits.idleTime)
    (horderly : Orderly limits calls) (hnow : ∀ call ∈ calls, call.instant ≤ now) (key : String) :
    ((ofLimits limits).run calls).level key now =
      ((ofLimits limits).run (withoutSweeps calls)).level key now := by
  induction calls using List.reverseRecOn generalizing now key with
  | nil => rfl
  | append_singleton calls call ih =>
      obtain ⟨hcurrent, hplain⟩ := current_of_orderly hrate horderly
      have hbefore := ih horderly.left horderly.instant_le
      -- The levels agree right after the call, and time does the same to both.
      have hcall : ((ofLimits limits).run (calls ++ [call])).level key call.instant =
          ((ofLimits limits).run (withoutSweeps (calls ++ [call]))).level key call.instant := by
        cases call with
        | sweep sweptAt =>
            rw [withoutSweeps_concat_sweep, run_concat, ← hbefore]
            apply hcurrent.level_sweep
            intro entry _ hidle
            rw [limits_run] at hidle ⊢
            have hlonger : seconds limits.idleTime ≤ seconds (sweptAt - entry.lastSeen) :=
              seconds_le hidle.le
            exact hfull.trans (mul_le_mul_of_nonneg_left hlonger hrate.le)
        | allow other askedAt =>
            have hplainly := horderly.sublist (withoutSweeps_sublist _)
            rw [withoutSweeps_concat_allow] at hplainly ⊢
            rw [run_concat, run_concat]
            have halike :=
              hcurrent.allow_alike hplain horderly.roomFor_eq hplainly.roomFor_eq hbefore
            exact halike.2 key
      have hlater : ∀ calls : List Call, ((ofLimits limits).run calls).level key now =
          min (((ofLimits limits).run calls).level key call.instant +
            seconds (now - call.instant) * limits.rate) limits.burst := by
        intro calls
        have hgain : 0 ≤ ((ofLimits limits).run calls).limits.rate := by
          rw [limits_run]
          exact hrate.le
        rw [level_later hgain (hnow call (by simp)), limits_run]
        rfl
      rw [hlater, hlater, hcall]

end Limiter

/-- In exact arithmetic, and as long as nobody has to make room: if a bucket is full again by the
time at which a sweep may drop it, then no call is answered differently for any sweeps before it.
-/
theorem answers_of_refilled {limits : Limits Rat}
    (hfull : (limits.burst : Rat) ≤ limits.rate * seconds limits.idleTime) {calls : List Call}
    (horderly : Orderly limits calls) :
    (Limiter.ofLimits limits).answers calls =
      (Limiter.ofLimits limits).answers (withoutSweeps calls) := by
  apply Limiter.answers_withoutSweeps
  rintro before key now after rfl
  rcases Nat.eq_zero_or_pos limits.burst with hnone | hsome
  · have hburst : ∀ calls, ((Limiter.ofLimits limits).run calls).limits.burst = 0 := by
      intro calls
      rw [Limiter.limits_run]
      exact hnone
    rw [Limiter.allow_of_no_burst (hburst _), Limiter.allow_of_no_burst (hburst _)]
  · have hrate : 0 < limits.rate := by
      have hidle := seconds_nonneg (Int.natCast_nonneg limits.idleTime)
      exact pos_of_mul_pos_left ((Nat.cast_pos.2 hsome).trans_le hfull) hidle
    have hlast : Orderly limits (before ++ [.allow key now]) := horderly.sublist (by simp)
    obtain ⟨hcurrent, hplain⟩ := Limiter.current_of_orderly hrate hlast
    have hlevels := Limiter.level_withoutSweeps hrate hfull hlast.left hlast.instant_le
    exact ((hcurrent.allow_eq key).1.trans (by rw [hlevels])).trans (hplain.allow_eq key).1.symm

/-- The settings of a limiter that is not told otherwise, with exact numbers. -/
def defaultLimits : Limits Rat := { rate := defaultRate, burst := defaultBurst }

/-- A client who comes back after a sweep has dropped it is answered as it would be anyway. -/
theorem answers_of_defaults :
    (defaultLimits.burst : Rat) ≤ defaultLimits.rate * seconds defaultLimits.idleTime ∧
      Orderly defaultLimits comeback ∧
      ((Limiter.ofLimits defaultLimits).run (comeback.take 2)).contains "10.0.0.1" = false ∧
      (Limiter.ofLimits defaultLimits).answers comeback =
        (Limiter.ofLimits defaultLimits).answers (withoutSweeps comeback) := by
  have hfull : (defaultLimits.burst : Rat) ≤
      defaultLimits.rate * seconds defaultLimits.idleTime := by
    norm_num [defaultLimits, defaultRate, defaultBurst, defaultIdleTime, seconds]
  have horderly : Orderly defaultLimits comeback := ⟨by decide, by decide⟩
  exact ⟨hfull, horderly, by decide +kernel, answers_of_refilled hfull horderly⟩

/-! ## Which keys survive a sweep -/

section Survival

variable {α : Type} {limits : Limits α} {key : String} {moments : List (Moment α)}

/-- Of two insertions of a key, only the later one can be the last. -/
theorem Inserted.not_again {created again : Int} {since between rest : List (Moment α)}
    {found : Limiter α} (hinserted : Inserted key moments created since)
    (hunknown : found.contains key = false) :
    since ≠ between ++ ⟨found, .allow key again⟩ :: rest := by
  rintro rfl
  have hknown := hinserted.kept _ (List.mem_append_right _ List.mem_cons_self) rfl
  exact Bool.false_ne_true (hunknown.symm.trans hknown)

/-- There is one call that last inserted a key. -/
theorem Inserted.unique {created again : Int} {since rest : List (Moment α)}
    (hinserted : Inserted key moments created since) (hagain : Inserted key moments again rest) :
    created = again ∧ since = rest := by
  obtain ⟨earlier, found, hsplit, hunknown⟩ := hinserted.split
  obtain ⟨before, other, hother, hnew⟩ := hagain.split
  rw [hsplit, List.append_eq_append_iff] at hother
  rcases hother with ⟨between, -, htail⟩ | ⟨between, -, htail⟩
  · cases between with
    | nil =>
        cases htail
        exact ⟨rfl, rfl⟩
    | cons moment between => exact absurd (List.cons.inj htail).2 (hinserted.not_again hnew)
  · cases between with
    | nil =>
        cases htail
        exact ⟨rfl, rfl⟩
    | cons moment between => exact absurd (List.cons.inj htail).2 (hagain.not_again hunknown)

/-- Of calls at these instants, one is no further back than an idle key is kept. -/
def SeenLately (limits : Limits α) (instants : List Int) (now : Int) : Prop :=
  ∃ instant ∈ instants, now - instant ≤ limits.idleTime

/-- No sweep drops a key that has been called lately, since it was last inserted. -/
def KeepsRecent (limits : Limits α) (moments : List (Moment α)) (limiter : Limiter α)
    (key : String) : Prop :=
  ∀ created since, Inserted key moments created since → ∀ now,
    SeenLately limits (created :: instantsFor key since) now →
      (limiter.sweep now).contains key = true

/-- Whether a sweep keeps a key is told by the last of its calls. So no sweep drops it too early if
and only if that call also has the latest instant. -/
def GoesByLastCall (limits : Limits α) (moments : List (Moment α)) (limiter : Limiter α)
    (key : String) : Prop :=
  ∃ created since last, Inserted key moments created since ∧
    (created :: instantsFor key since).getLast? = some last ∧
    (∀ now, (limiter.sweep now).contains key = true ↔ now - last ≤ limits.idleTime) ∧
    (KeepsRecent limits moments limiter key ↔
      ∀ instant ∈ created :: instantsFor key since, instant ≤ last)

/-- After any run, sweeps go by the last call for a key. If it was overtaken by one that read the
clock later, then there is a sweep that drops the key although it was called lately. -/
theorem goesByLastCall_of_runs [Arithmetic α] {limiter : Limiter α}
    (hruns : Limiter.Runs limits moments limiter) (htracked : limiter.contains key = true) :
    GoesByLastCall limits moments limiter key := by
  obtain ⟨entry, hentry⟩ := Option.isSome_iff_exists.1 htracked
  obtain ⟨created, since, hinserted, hleft⟩ := hruns.leftBySelf key entry hentry
  obtain ⟨hmem, rfl⟩ := hruns.distinct.find?_eq_some_iff.1 hentry
  have hidle : limiter.limits.idleTime = limits.idleTime :=
    congrArg (·.idleTime) hruns.limits_eq
  have hkept : ∀ now, (limiter.sweep now).contains entry.key = true ↔
      now - entry.lastSeen ≤ limits.idleTime := by
    intro now
    rw [hruns.distinct.contains_sweep now hmem, Limiter.isFresh, hidle, decide_eq_true_eq]
    omega
  refine ⟨created, since, entry.lastSeen, hinserted, hleft.lastSeen, hkept, ?_, ?_⟩
  · intro hkeeps instant hinstant
    -- The last sweep that comes early enough for this call.
    have hlast := (hkept _).1 (hkeeps created since hinserted (instant + limits.idleTime)
      ⟨instant, hinstant, by omega⟩)
    omega
  · intro hlatest created' since' hinserted' now hlately
    obtain ⟨rfl, rfl⟩ := hinserted.unique hinserted'
    obtain ⟨instant, hinstant, hrecent⟩ := hlately
    rw [hkept]
    exact (Int.sub_le_sub_left (hlatest instant hinstant) now).trans hrecent

end Survival

/-- Two requests of one client, of which the one that read the clock first comes last. -/
def overtaken : List Call :=
  [.allow "10.0.0.1" 1000, .allow "10.0.0.1" 0]

/-- The client is tracked after them, and sweeps go by the second one. -/
theorem goesByLastCall_of_overtaken :
    ((Limiter.ofLimits defaultLimits).run overtaken).contains "10.0.0.1" = true ∧
      GoesByLastCall defaultLimits ((Limiter.ofLimits defaultLimits).moments overtaken)
        ((Limiter.ofLimits defaultLimits).run overtaken) "10.0.0.1" := by
  have htracked : ((Limiter.ofLimits defaultLimits).run overtaken).contains "10.0.0.1" = true := by
    decide +kernel
  exact ⟨htracked, goesByLastCall_of_runs (Limiter.runs_moments _ _) htracked⟩

/-- So a sweep drops the client before ten minutes have passed since the one that read the clock
last. -/
theorem overtaken_not_kept :
    SeenLately defaultLimits [1000, 0] 600000000500 ∧
      (((Limiter.ofLimits defaultLimits).run overtaken).sweep 600000000500).contains "10.0.0.1" =
        false ∧
      ¬ KeepsRecent defaultLimits ((Limiter.ofLimits defaultLimits).moments overtaken)
        ((Limiter.ofLimits defaultLimits).run overtaken) "10.0.0.1" := by
  have hlately : SeenLately defaultLimits [1000, 0] 600000000500 := ⟨1000, by decide, by decide⟩
  have hdropped : (((Limiter.ofLimits defaultLimits).run overtaken).sweep 600000000500).contains
      "10.0.0.1" = false := by decide +kernel
  let first : Moment Rat := ⟨Limiter.ofLimits defaultLimits, .allow "10.0.0.1" 1000⟩
  let second : Moment Rat := ⟨first.limiter.perform first.call, .allow "10.0.0.1" 0⟩
  have hknown : second.limiter.contains "10.0.0.1" = true := by decide +kernel
  have hinserted : Inserted "10.0.0.1" [first, second] 1000 [second] := by
    refine ⟨⟨[], first.limiter, rfl, rfl⟩, fun moment hmoment _ => ?_⟩
    rw [List.mem_singleton.1 hmoment]
    exact hknown
  refine ⟨hlately, hdropped, fun hkeeps => ?_⟩
  have hkept := hkeeps 1000 [second] hinserted 600000000500 hlately
  exact Bool.false_ne_true (hdropped.symm.trans hkept)

end Upkeep.RateLimit
