/-
# How much a key can be allowed

A key is admitted for as long as its bucket has tokens, so in any span of time it should not be
admitted more often than a full bucket and the tokens gained since then account for. What carries
the argument is the level of a key at an instant: the tokens that the key would find then, which
is a full bucket if nothing is known of the key. Time raises the level by no more than the rate
allows, an admission lowers it by one, and a call for another key leaves it alone.

A sweep is the only thing that can raise a level from nowhere, since a key that is dropped will
find a full bucket. It does so unless the key has been idle for so long that its bucket would be
full in any case. So the bound holds of a limiter, whatever it is asked, if and only if a bucket
is always refilled by the time at which a sweep may drop it.
-/

import Mathlib.Algebra.Order.Floor.Ring
import Mathlib.Data.Rat.Floor
import Mathlib.Tactic.Linarith
import Mathlib.Tactic.Positivity
import Upkeep.Proofs.RateLimit.Run

namespace Upkeep.RateLimit

/-- A span of nanoseconds, in seconds. -/
def seconds (span : Int) : Rat :=
  span / 1000000000

theorem seconds_add (span other : Int) : seconds (span + other) = seconds span + seconds other := by
  simp [seconds, add_div]

theorem seconds_nonneg {span : Int} (hspan : 0 ≤ span) : 0 ≤ seconds span := by
  unfold seconds
  positivity

theorem seconds_le {span other : Int} (hle : span ≤ other) : seconds span ≤ seconds other := by
  unfold seconds
  gcongr

namespace Bucket

/-- The tokens that a bucket holds at an instant that is not in its past. -/
def level (bucket : Bucket Rat) (rate burst : Rat) (now : Int) : Rat :=
  min (bucket.tokens + seconds (now - bucket.updated) * rate) burst

variable {bucket : Bucket Rat} {rate burst : Rat} {now : Int}

/-- To wait twice is to wait once. -/
theorem level_level (bucket : Bucket Rat) (hrate : 0 ≤ rate) {later : Int} (hlater : now ≤ later) :
    (⟨bucket.level rate burst now, now⟩ : Bucket Rat).level rate burst later =
      bucket.level rate burst later := by
  have hspan : seconds (later - bucket.updated) =
      seconds (now - bucket.updated) + seconds (later - now) := by
    rw [← seconds_add]
    congr 1
    omega
  have hgain : burst ≤ burst + seconds (later - now) * rate :=
    le_add_of_nonneg_right (mul_nonneg (seconds_nonneg (Int.sub_nonneg_of_le hlater)) hrate)
  simp only [level]
  rw [min_add, min_assoc, min_eq_right hgain, hspan, add_mul, add_assoc]

/-- Refilling a bucket brings it to its level. -/
theorem refill_eq (hpast : bucket.updated ≤ now) :
    bucket.refill rate burst now = ⟨bucket.level rate burst now, now⟩ := by
  have hspan : ((now - bucket.updated).toNat : Rat) = ((now - bucket.updated : Int) : Rat) := by
    rw [← Int.cast_natCast, Int.toNat_of_nonneg (Int.sub_nonneg_of_le hpast)]
  have hleast : ∀ a b : Rat, Arithmetic.least a b = min a b := by
    intro a b
    show (if b < a then b else a) = min a b
    rw [min_comm, min_def_lt]
  have htokens : (bucket.refill rate burst now).tokens = bucket.level rate burst now := by
    show Arithmetic.least (bucket.tokens + ((now - bucket.updated).toNat : Rat) / 1000000000 * rate)
      burst = _
    rw [hleast, hspan]
    rfl
  have hupdated : (bucket.refill rate burst now).updated = now := by
    show (if bucket.updated < now then now else bucket.updated) = now
    split
    · rfl
    · omega
  exact congrArg₂ Bucket.mk htokens hupdated

/-- A bucket gives a token if and only if its level is at least one. -/
theorem take_eq (hpast : bucket.updated ≤ now) :
    bucket.take rate burst now =
      if 1 ≤ bucket.level rate burst now then (true, ⟨bucket.level rate burst now - 1, now⟩)
      else (false, ⟨bucket.level rate burst now, now⟩) := by
  have hone : (Arithmetic.ofCount 1 : Rat) = 1 := Nat.cast_one
  have hcovers : ∀ a b : Rat, Arithmetic.covers a b = decide (b ≤ a) := fun _ _ => rfl
  rw [take, refill_eq hpast, hone, hcovers]
  simp only [decide_eq_true_eq]

end Bucket

namespace Limiter

/-! ## Levels -/

/-- The bucket from which a call for a key would take: a full one if nothing is known of it. -/
def bucketOf (limiter : Limiter Rat) (key : String) (now : Int) : Bucket Rat :=
  ((limiter.find? key).map (·.bucket)).getD (Bucket.full limiter.limits.burst now)

/-- The tokens that a key would find at an instant. -/
def level (limiter : Limiter Rat) (key : String) (now : Int) : Rat :=
  (limiter.bucketOf key now).level limiter.limits.rate limiter.limits.burst now

/-- No entry is ahead of an instant, and none owes tokens. -/
structure Current (limiter : Limiter Rat) (now : Int) : Prop where
  distinct : limiter.Distinct
  past : ∀ entry ∈ limiter.tracked, entry.lastSeen ≤ now
  updated : ∀ entry ∈ limiter.tracked, entry.bucket.updated = entry.lastSeen
  tokens_nonneg : ∀ entry ∈ limiter.tracked, 0 ≤ entry.bucket.tokens

variable {limiter : Limiter Rat} {key other : String} {now later : Int}

theorem level_of_find? {entry : Tracked Rat} (hfind : limiter.find? key = some entry) (now : Int) :
    limiter.level key now =
      entry.bucket.level limiter.limits.rate limiter.limits.burst now := by
  rw [level, bucketOf, hfind]
  rfl

/-- A key of which nothing is known would find a full bucket. -/
theorem level_of_unknown (hfind : limiter.find? key = none) (now : Int) :
    limiter.level key now = limiter.limits.burst := by
  rw [level, bucketOf, hfind]
  simp [Bucket.level, Bucket.full, seconds]

theorem Current.mono (hcurrent : limiter.Current now) (hle : now ≤ later) :
    limiter.Current later :=
  { hcurrent with past := fun entry hentry => (hcurrent.past entry hentry).trans hle }

theorem level_le_burst (limiter : Limiter Rat) (key : String) (now : Int) :
    limiter.level key now ≤ limiter.limits.burst :=
  min_le_right ..

/-- Time adds to a level what is gained meanwhile, up to a full bucket. -/
theorem level_later (hrate : 0 ≤ limiter.limits.rate) (hlater : now ≤ later) (key : String) :
    limiter.level key later =
      min (limiter.level key now + seconds (later - now) * limiter.limits.rate)
        limiter.limits.burst := by
  cases hfind : limiter.find? key with
  | none =>
      have hgain : 0 ≤ seconds (later - now) * limiter.limits.rate :=
        mul_nonneg (seconds_nonneg (Int.sub_nonneg_of_le hlater)) hrate
      rw [level_of_unknown hfind, level_of_unknown hfind,
        min_eq_right (le_add_of_nonneg_right hgain)]
  | some entry =>
      rw [level_of_find? hfind, level_of_find? hfind, ← entry.bucket.level_level hrate hlater]
      rfl

section Nonneg

variable (hrate : 0 < limiter.limits.rate)

include hrate

theorem Current.level_nonneg (hcurrent : limiter.Current now) (key : String) :
    0 ≤ limiter.level key now := by
  cases hfind : limiter.find? key with
  | none =>
      rw [level_of_unknown hfind]
      exact Nat.cast_nonneg _
  | some entry =>
      have hentry := (hcurrent.distinct.find?_eq_some_iff.1 hfind).1
      have hspan : 0 ≤ seconds (now - entry.bucket.updated) := by
        apply seconds_nonneg
        rw [hcurrent.updated entry hentry]
        exact Int.sub_nonneg_of_le (hcurrent.past entry hentry)
      have htokens := hcurrent.tokens_nonneg entry hentry
      rw [level_of_find? hfind]
      exact le_min (by positivity) (Nat.cast_nonneg _)

/-- Time raises a level by no more than the rate allows. -/
theorem level_le_add (hle : now ≤ later) (key : String) :
    limiter.level key later ≤
      limiter.level key now + limiter.limits.rate * seconds (later - now) := by
  rw [level_later hrate.le hle, mul_comm]
  exact min_le_left ..

end Nonneg

/-! ## What calls do to levels -/

theorem Current.updated_bucketOf_le (hcurrent : limiter.Current now) (key : String) :
    (limiter.bucketOf key now).updated ≤ now := by
  unfold bucketOf
  cases hfind : limiter.find? key with
  | none => exact le_refl _
  | some entry =>
      have hentry := (hcurrent.distinct.find?_eq_some_iff.1 hfind).1
      exact (hcurrent.updated entry hentry).trans_le (hcurrent.past entry hentry)

/-- The tokens that are left to a key after a call for it. -/
def levelAfter (limiter : Limiter Rat) (key : String) (now : Int) : Rat :=
  limiter.level key now - (limiter.allow key now).1.toNat

/-- A call for a key is admitted if and only if its level is at least one, and its entry then
stands for the tokens that are left. -/
theorem Current.allow_eq (hcurrent : limiter.Current now) (key : String) :
    (limiter.allow key now).1 = decide (1 ≤ limiter.level key now) ∧
      (limiter.allow key now).2.tracked =
        without key (limiter.roomFor key) ++ [⟨key, ⟨limiter.levelAfter key now, now⟩, now⟩] := by
  have htake : limiter.allow key now =
      (((limiter.bucketOf key now).take limiter.limits.rate limiter.limits.burst now).1,
        ⟨limiter.limits, without key (limiter.roomFor key) ++
          [⟨key, ((limiter.bucketOf key now).take limiter.limits.rate limiter.limits.burst now).2,
            now⟩]⟩) := by
    unfold allow bucketOf
    cases limiter.find? key <;> rfl
  rw [levelAfter, htake, Bucket.take_eq (hcurrent.updated_bucketOf_le key), ← level]
  by_cases hone : 1 ≤ limiter.level key now
  · simp [hone]
  · simp [hone]

theorem Current.levelAfter_nonneg (hcurrent : limiter.Current now) (hrate : 0 < limiter.limits.rate)
    (key : String) : 0 ≤ limiter.levelAfter key now := by
  rw [levelAfter, (hcurrent.allow_eq key).1]
  by_cases hone : 1 ≤ limiter.level key now
  · simp [hone]
  · simpa [hone] using hcurrent.level_nonneg hrate key

/-- The level of the key that is called falls by one if the call is admitted. -/
theorem Current.level_allow_self (hcurrent : limiter.Current now) (key : String) :
    (limiter.allow key now).2.level key now = limiter.levelAfter key now := by
  have hfind : (limiter.allow key now).2.find? key =
      some ⟨key, ⟨limiter.levelAfter key now, now⟩, now⟩ := by
    rw [find?, (hcurrent.allow_eq key).2, find?_concat_without]
  have hle : limiter.levelAfter key now ≤ limiter.limits.burst :=
    (sub_le_self _ (Nat.cast_nonneg _)).trans (level_le_burst ..)
  have hlimits : (limiter.allow key now).2.limits = limiter.limits := rfl
  rw [level_of_find? hfind, Bucket.level, hlimits, Int.sub_self]
  simpa [seconds] using hle

/-- A call for another key leaves a level alone, as long as nobody has to make room. -/
theorem level_allow_other (hroom : limiter.roomFor other = limiter.tracked) (hother : key ≠ other)
    (now : Int) : (limiter.allow other now).2.level key now = limiter.level key now := by
  have hfind : (limiter.allow other now).2.find? key = limiter.find? key := by
    rw [find?_allow_other hother, hroom, find?]
  rw [level, bucketOf, hfind]
  rfl

/-- A sweep leaves a level alone if it drops the key only when its bucket would be full. -/
theorem Current.level_sweep (hcurrent : limiter.Current now)
    (hfull : ∀ entry, limiter.find? key = some entry →
      limiter.limits.idleTime < now - entry.lastSeen →
        limiter.limits.burst ≤ limiter.limits.rate * seconds (now - entry.lastSeen)) :
    (limiter.sweep now).level key now = limiter.level key now := by
  have hfind := hcurrent.distinct.find?_sweep key now
  have hlimits : (limiter.sweep now).limits = limiter.limits := rfl
  cases hknown : limiter.find? key with
  | none =>
      rw [hknown, Option.filter_none] at hfind
      rw [level_of_unknown hfind, level_of_unknown hknown, hlimits]
  | some entry =>
      by_cases hfresh : limiter.isFresh now entry = true
      · rw [hknown, Option.filter_some, if_pos hfresh] at hfind
        rw [level_of_find? hfind, level_of_find? hknown, hlimits]
      · rw [hknown, Option.filter_some, if_neg hfresh] at hfind
        have hentry := (hcurrent.distinct.find?_eq_some_iff.1 hknown).1
        have htokens := hcurrent.tokens_nonneg entry hentry
        have hidle : limiter.limits.idleTime < now - entry.lastSeen := by
          rw [isFresh, decide_eq_true_eq] at hfresh
          omega
        have hgained := hfull entry hknown hidle
        rw [level_of_unknown hfind, level_of_find? hknown, hlimits, Bucket.level,
          hcurrent.updated entry hentry, min_eq_right]
        linarith [mul_comm limiter.limits.rate (seconds (now - entry.lastSeen))]

theorem Current.perform (hcurrent : limiter.Current now) (hrate : 0 < limiter.limits.rate)
    {call : Call} (hnow : call.instant = now) : (limiter.perform call).Current now := by
  have hdistinct := hcurrent.distinct.perform call
  cases call with
  | sweep instant =>
      have hkept : ∀ entry ∈ (limiter.sweep instant).tracked, entry ∈ limiter.tracked :=
        fun _ hentry => List.mem_of_mem_filter hentry
      exact ⟨hdistinct, fun entry hentry => hcurrent.past entry (hkept entry hentry),
        fun entry hentry => hcurrent.updated entry (hkept entry hentry),
        fun entry hentry => hcurrent.tokens_nonneg entry (hkept entry hentry)⟩
  | allow key instant =>
      obtain rfl : instant = now := hnow
      have hentries : ∀ entry ∈ (limiter.allow key instant).2.tracked, entry ∈ limiter.tracked ∨
          entry = ⟨key, ⟨limiter.levelAfter key instant, instant⟩, instant⟩ := by
        intro entry hentry
        rw [(hcurrent.allow_eq key).2, List.mem_append] at hentry
        rcases hentry with hother | hself
        · exact .inl ((limiter.roomFor_sublist key).subset (mem_without.1 hother).1)
        · exact .inr (List.mem_singleton.1 hself)
      refine ⟨hdistinct, ?_, ?_, ?_⟩ <;> intro entry hentry <;>
        rcases hentries entry hentry with hother | rfl
      · exact hcurrent.past entry hother
      · exact le_refl _
      · exact hcurrent.updated entry hother
      · rfl
      · exact hcurrent.tokens_nonneg entry hother
      · exact hcurrent.levelAfter_nonneg hrate key

/-- After calls that go forward in time, no entry is ahead of the last of them. -/
theorem current_run {limits : Limits Rat} (hrate : 0 < limits.rate) {calls : List Call}
    (hforward : (calls.map Call.instant).Pairwise (· ≤ ·))
    (hnow : ∀ call ∈ calls, call.instant ≤ now) :
    ((ofLimits limits).run calls).Current now := by
  induction calls using List.reverseRecOn generalizing now with
  | nil => exact ⟨List.nodup_nil, nofun, nofun, nofun⟩
  | append_singleton calls call ih =>
      rw [List.map_append, List.pairwise_append] at hforward
      have hbefore := ih hforward.1 fun earlier hearlier =>
        hforward.2.2 _ (List.mem_map_of_mem hearlier) call.instant List.mem_cons_self
      rw [run_concat]
      apply Current.mono (hbefore.perform _ rfl)
      · exact hnow call (List.mem_append_right _ List.mem_cons_self)
      · rwa [limits_run]

/-! ## Admissions -/

/-- Whether a call is one for the key and admitted. -/
def admits {α : Type} [Arithmetic α] (limiter : Limiter α) (key : String) : Call → Bool
  | .allow other now => other = key && (limiter.allow other now).1
  | .sweep _ => false

/-- How many of some calls are for the key and admitted. -/
def admissions {α : Type} [Arithmetic α] (limiter : Limiter α) (key : String) : List Call → Nat
  | [] => 0
  | call :: calls => (limiter.admits key call).toNat + (limiter.perform call).admissions key calls

theorem admissions_append {α : Type} [Arithmetic α] (limiter : Limiter α) (key : String)
    (calls more : List Call) :
    limiter.admissions key (calls ++ more) =
      limiter.admissions key calls + (limiter.run calls).admissions key more := by
  induction calls generalizing limiter with
  | nil => simp [admissions, run]
  | cons call calls ih =>
      rw [List.cons_append, admissions, admissions, ih, Nat.add_assoc]
      rfl

/-- One call takes from the level of a key what it is admitted for. -/
theorem Current.admits_add_level (hcurrent : limiter.Current now) (key : String) {call : Call}
    (hnow : call.instant = now)
    (hroom : ∀ other, call = .allow other now → limiter.roomFor other = limiter.tracked)
    (hfull : call = .sweep now → ∀ entry, limiter.find? key = some entry →
      limiter.limits.idleTime < now - entry.lastSeen →
        limiter.limits.burst ≤ limiter.limits.rate * seconds (now - entry.lastSeen)) :
    ((limiter.admits key call).toNat : Rat) + (limiter.perform call).level key now =
      limiter.level key now := by
  cases call with
  | sweep instant =>
      obtain rfl : instant = now := hnow
      simpa [admits, Limiter.perform] using hcurrent.level_sweep (hfull rfl)
  | allow other instant =>
      obtain rfl : instant = now := hnow
      by_cases hother : other = key
      · subst hother
        rw [Limiter.perform, hcurrent.level_allow_self, levelAfter]
        simp [admits]
      · rw [Limiter.perform, level_allow_other (hroom other rfl) (Ne.symm hother)]
        simp [admits, hother]

/-- So what one call is admitted for, and the level at a later instant, are no more than the level
at the call and the tokens gained since. -/
theorem Current.admits_add_level_le (hcurrent : limiter.Current now)
    (hrate : 0 < limiter.limits.rate) (key : String) {call : Call} (hnow : call.instant = now)
    (hroom : ∀ other, call = .allow other now → limiter.roomFor other = limiter.tracked)
    (hfull : call = .sweep now → ∀ entry, limiter.find? key = some entry →
      limiter.limits.idleTime < now - entry.lastSeen →
        limiter.limits.burst ≤ limiter.limits.rate * seconds (now - entry.lastSeen))
    {later : Int} (hlater : now ≤ later) :
    ((limiter.admits key call).toNat : Rat) + (limiter.perform call).level key later ≤
      limiter.level key now + limiter.limits.rate * seconds (later - now) := by
  have hlimits : (limiter.perform call).limits = limiter.limits := limiter.limits_perform call
  have hgain := level_le_add (hlimits ▸ hrate) hlater key
  rw [hlimits] at hgain
  rw [← hcurrent.admits_add_level key hnow hroom hfull, add_assoc]
  exact add_le_add_right hgain _

end Limiter

/-! ## Windows -/

/-- Calls of which no one is earlier than the one before, for no more keys than can be tracked. -/
structure Orderly (limits : Limits Rat) (calls : List Call) : Prop where
  forward : (calls.map Call.instant).Pairwise (· ≤ ·)
  few_keys : (Call.keys calls).toFinset.card ≤ max limits.maxKeys 1

/-- The part of some calls from one call for a key to another one. -/
structure Window (calls : List Call) where
  before : List Call
  part : List Call
  after : List Call
  key : String
  /-- The instant of the first call of the part. -/
  first : Int
  /-- The instant of its last call. -/
  last : Int
  split : calls = before ++ part ++ after
  head : part.head? = some (.allow key first)
  getLast : part.getLast? = some (.allow key last)

namespace Window

variable {limits : Limits Rat} {calls : List Call}

/-- How often the key of a window is admitted in it. -/
def admitted (window : Window calls) (limits : Limits Rat) : Nat :=
  ((Limiter.ofLimits limits).run window.before).admissions window.key window.part

/-- The key of a window is admitted no more often in it than a full bucket and the tokens gained
from its first to its last instant account for. -/
def Bounded (window : Window calls) (limits : Limits Rat) : Prop :=
  (window.admitted limits : Int) ≤
    limits.burst + ⌊limits.rate * seconds (window.last - window.first)⌋

/-- A sweep in a window that drops its key does so only when the key has been idle for so long
that its bucket would be full in any case. -/
def DropsFull (window : Window calls) (limits : Limits Rat) : Prop :=
  ∀ front sweptAt back, window.part = front ++ .sweep sweptAt :: back →
    ∀ entry, ((Limiter.ofLimits limits).run (window.before ++ front)).find? window.key =
        some entry →
      limits.idleTime < sweptAt - entry.lastSeen →
        limits.burst ≤ limits.rate * seconds (sweptAt - entry.lastSeen)

end Window

/-- Some of the calls are as orderly as all of them. -/
theorem Orderly.sublist {limits : Limits Rat} {calls some : List Call}
    (horderly : Orderly limits calls) (hsome : some.Sublist calls) : Orderly limits some where
  forward := horderly.forward.sublist (hsome.map _)
  few_keys := by
    refine le_trans (Finset.card_le_card ?_) horderly.few_keys
    intro key hkey
    rw [List.mem_toFinset] at hkey ⊢
    exact Call.keys_subset hsome.subset hkey

theorem Orderly.left {limits : Limits Rat} {calls more : List Call}
    (horderly : Orderly limits (calls ++ more)) : Orderly limits calls :=
  horderly.sublist (List.sublist_append_left ..)

/-- The last call is no earlier than those before it. -/
theorem Orderly.instant_le {limits : Limits Rat} {calls : List Call} {call : Call}
    (horderly : Orderly limits (calls ++ [call])) :
    ∀ earlier ∈ calls, earlier.instant ≤ call.instant := by
  have hforward := horderly.forward
  rw [List.map_append, List.pairwise_append] at hforward
  intro earlier hearlier
  exact hforward.2.2 _ (List.mem_map_of_mem hearlier) _ List.mem_cons_self

/-- Nobody has to make room for the key of the last call. -/
theorem Orderly.roomFor_eq {limits : Limits Rat} {calls : List Call} {key : String} {now : Int}
    (horderly : Orderly limits (calls ++ [.allow key now])) :
    ((Limiter.ofLimits limits).run calls).roomFor key =
      ((Limiter.ofLimits limits).run calls).tracked := by
  apply Limiter.roomFor_run_of_few
  simpa [Call.keys, Call.key?] using horderly.few_keys

/-- What a key was admitted for since an instant, and what it could still be admitted for, is no
more than a full bucket and the tokens gained since. -/
theorem admissions_add_level_le {limits : Limits Rat} (hrate : 0 < limits.rate)
    {before part : List Call} {key : String} {first now : Int}
    (horderly : Orderly limits (before ++ part))
    (hfirst : ∀ call ∈ part, first ≤ call.instant)
    (hfull : ∀ front sweptAt back, part = front ++ .sweep sweptAt :: back →
      ∀ entry, ((Limiter.ofLimits limits).run (before ++ front)).find? key = some entry →
        limits.idleTime < sweptAt - entry.lastSeen →
          limits.burst ≤ limits.rate * seconds (sweptAt - entry.lastSeen))
    (hnow : ∀ call ∈ before ++ part, call.instant ≤ now) (hstart : first ≤ now) :
    ((((Limiter.ofLimits limits).run before).admissions key part : Nat) : Rat) +
        ((Limiter.ofLimits limits).run (before ++ part)).level key now ≤
      limits.burst + limits.rate * seconds (now - first) := by
  induction part using List.reverseRecOn generalizing now with
  | nil =>
      have hlevel := ((Limiter.ofLimits limits).run before).level_le_burst key now
      have hgain := mul_nonneg hrate.le (seconds_nonneg (Int.sub_nonneg_of_le hstart))
      rw [Limiter.limits_run] at hlevel
      rw [List.append_nil, Limiter.admissions, Nat.cast_zero, zero_add]
      exact hlevel.trans (le_add_of_nonneg_right hgain)
  | append_singleton part call ih =>
      rw [← List.append_assoc] at horderly hnow ⊢
      set limiter := (Limiter.ofLimits limits).run (before ++ part) with hlimiter
      have hlimits : limiter.limits = (Limiter.ofLimits limits).limits := Limiter.limits_run ..
      have hpast := horderly.instant_le
      have hbefore := ih horderly.left
        (fun earlier hearlier => hfirst earlier (List.mem_append_left _ hearlier))
        (fun front sweptAt back hsplit => hfull front sweptAt (back ++ [call]) (by simp [hsplit]))
        hpast (hfirst call (by simp))
      have hcurrent : limiter.Current call.instant :=
        Limiter.current_run hrate horderly.left.forward hpast
      have hstep := hcurrent.admits_add_level_le (hlimits ▸ hrate) key rfl
        (fun other hother => ?_) (fun hsweep entry hentry hidle => ?_) (hnow call (by simp))
      · have hcall : ((limiter.admits key call).toNat : Rat) +
            (limiter.perform call).level key now ≤
            limiter.level key call.instant + limits.rate * seconds (now - call.instant) := by
          rwa [hlimits] at hstep
        have hspan : seconds (now - first) =
            seconds (call.instant - first) + seconds (now - call.instant) := by
          rw [← seconds_add]
          congr 1
          omega
        have hcount : ((Limiter.ofLimits limits).run before).admissions key (part ++ [call]) =
            ((Limiter.ofLimits limits).run before).admissions key part +
              (limiter.admits key call).toNat := by
          rw [Limiter.admissions_append, ← Limiter.run_append]
          rfl
        rw [Limiter.run_concat, hcount, hspan, Nat.cast_add, mul_add]
        linarith
      · rw [hother] at horderly
        exact horderly.roomFor_eq
      · rw [hlimits] at hidle ⊢
        exact hfull part call.instant [] (by rw [← hsweep]) entry hentry hidle

/-- The bound holds of every window in which the sweeps drop its key only with a full bucket. -/
theorem Window.bounded_of_dropsFull {limits : Limits Rat} (hrate : 0 < limits.rate)
    {calls : List Call} (horderly : Orderly limits calls) (window : Window calls)
    (hfull : window.DropsFull limits) : window.Bounded limits := by
  obtain ⟨before, part, after, key, first, last, rfl, hhead, hlast⟩ := window
  have horderly := horderly.left
  have hfirst : ∀ call ∈ part, first ≤ call.instant := by
    obtain ⟨tail, rfl⟩ := List.head?_eq_some_iff.1 hhead
    have hforward := horderly.forward
    rw [List.map_append, List.pairwise_append, List.map_cons, List.pairwise_cons] at hforward
    intro call hcall
    rcases List.mem_cons.1 hcall with rfl | htail
    · exact le_refl _
    · exact hforward.2.1.1 _ (List.mem_map_of_mem htail)
  have hnow : ∀ call ∈ before ++ part, call.instant ≤ last := by
    obtain ⟨front, rfl⟩ := List.getLast?_eq_some_iff.1 hlast
    rw [← List.append_assoc] at horderly ⊢
    intro call hcall
    rcases List.mem_append.1 hcall with hbefore | hself
    · exact horderly.instant_le call hbefore
    · rw [List.mem_singleton.1 hself]
      exact le_refl _
  have hstart : first ≤ last :=
    hnow (.allow key first) (List.mem_append_right _ (List.mem_of_mem_head? hhead))
  have hbound := admissions_add_level_le hrate horderly hfirst hfull hnow hstart
  have hcurrent := Limiter.current_run hrate horderly.forward hnow
  have hnonneg := hcurrent.level_nonneg (by rwa [Limiter.limits_run]) key
  rw [Bounded, admitted, ← sub_le_iff_le_add', Int.le_floor]
  push_cast
  linarith

/-! ## When the bound holds of every run -/

/-- As many calls as a bucket holds tokens, a sweep, and as many calls again, each as early as
it makes a difference. -/
def burstTwice (limits : Limits Rat) : List Call :=
  List.replicate limits.burst (.allow "" 0) ++
    .sweep (limits.idleTime + 1) :: List.replicate limits.burst (.allow "" (limits.idleTime + 1))

/-- A key with so many tokens is admitted as often at one instant. -/
theorem Limiter.Current.admissions_replicate {limiter : Limiter Rat} {now : Int}
    (hcurrent : limiter.Current now) (hrate : 0 < limiter.limits.rate) {key : String} {count : Nat}
    (hlevel : count ≤ limiter.level key now) :
    limiter.admissions key (List.replicate count (.allow key now)) = count := by
  induction count generalizing limiter with
  | zero => rfl
  | succ count ih =>
      have hone : 1 ≤ limiter.level key now := by
        push_cast at hlevel
        linarith [(Nat.cast_nonneg count : (0 : Rat) ≤ count)]
      have hadmitted : (limiter.allow key now).1 = true :=
        (hcurrent.allow_eq key).1.trans (decide_eq_true hone)
      have hrest : (count : Rat) ≤ (limiter.allow key now).2.level key now := by
        rw [hcurrent.level_allow_self, levelAfter, hadmitted]
        push_cast at hlevel
        simpa using le_sub_iff_add_le.2 hlevel
      have hnext : (limiter.perform (.allow key now)).Current now := hcurrent.perform hrate rfl
      rw [List.replicate_succ, admissions, ih hnext hrate hrest, admits, hadmitted]
      simp [Nat.add_comm]

theorem orderly_burstTwice (limits : Limits Rat) : Orderly limits (burstTwice limits) where
  forward := by
    rw [burstTwice, List.map_append, List.map_replicate, List.map_cons, List.map_replicate,
      List.pairwise_append, List.pairwise_cons]
    refine ⟨List.pairwise_replicate.2 (.inr (le_refl _)), ⟨?_, ?_⟩, ?_⟩
    · intro later hlater
      rw [(List.mem_replicate.1 hlater).2]
      exact le_refl _
    · exact List.pairwise_replicate.2 (.inr (le_refl _))
    · intro earlier hearlier later hlater
      rw [(List.mem_replicate.1 hearlier).2]
      rcases List.mem_cons.1 hlater with rfl | hagain
      · exact Int.le_add_one (Int.natCast_nonneg _)
      · rw [(List.mem_replicate.1 hagain).2]
        exact Int.le_add_one (Int.natCast_nonneg _)
  few_keys := by
    refine le_trans (Finset.card_le_one.2 ?_) (Nat.le_max_right ..)
    have hone : ∀ key ∈ (Call.keys (burstTwice limits)).toFinset, key = "" := by
      intro key hkey
      rw [List.mem_toFinset, Call.mem_keys] at hkey
      obtain ⟨instant, hcall⟩ := hkey
      rw [burstTwice, List.mem_append, List.mem_cons, List.mem_replicate, List.mem_replicate]
        at hcall
      rcases hcall with ⟨-, hcall⟩ | hcall | ⟨-, hcall⟩ <;> cases hcall <;> rfl
    intro key hkey other hother
    rw [hone key hkey, hone other hother]

/-- Both bursts are admitted, since the sweep drops the key between them. -/
theorem admissions_burstTwice {limits : Limits Rat} (hrate : 0 < limits.rate) :
    (Limiter.ofLimits limits).admissions "" (burstTwice limits) = limits.burst + limits.burst := by
  have hfresh : (Limiter.ofLimits limits).Current 0 := ⟨List.nodup_nil, nofun, nofun, nofun⟩
  have hfirst : (Limiter.ofLimits limits).admissions "" (.replicate limits.burst (.allow "" 0)) =
      limits.burst :=
    hfresh.admissions_replicate hrate (Limiter.level_of_unknown rfl 0).ge
  set drained := (Limiter.ofLimits limits).run (List.replicate limits.burst (.allow "" 0))
    with hdrained
  have hlimits : drained.limits = (Limiter.ofLimits limits).limits := Limiter.limits_run ..
  have hcurrent : drained.Current 0 := by
    apply Limiter.current_run hrate
    · rw [List.map_replicate]
      exact List.pairwise_replicate.2 (.inr (le_refl _))
    · intro call hcall
      rw [(List.mem_replicate.1 hcall).2]
      exact le_refl _
  have hempty : (drained.sweep (limits.idleTime + 1)).tracked = [] := by
    apply List.filter_eq_nil_iff.2
    intro entry hentry
    have hpast := hcurrent.past entry hentry
    have hidle : drained.limits.idleTime = limits.idleTime := by
      rw [hlimits]
      rfl
    rw [Limiter.isFresh, hidle, decide_eq_true_eq]
    omega
  have hlater := hcurrent.mono (Int.le_add_one (Int.natCast_nonneg limits.idleTime))
  have hswept : (drained.perform (.sweep (limits.idleTime + 1))).Current (limits.idleTime + 1) :=
    hlater.perform (hlimits ▸ hrate) rfl
  have hlevel : (limits.burst : Rat) ≤
      (drained.sweep (limits.idleTime + 1)).level "" (limits.idleTime + 1) := by
    have hunknown : (drained.sweep (limits.idleTime + 1)).find? "" = none := by
      rw [Limiter.find?, hempty]
      rfl
    rw [Limiter.level_of_unknown hunknown]
    exact (congrArg (fun l : Limits Rat => (l.burst : Rat)) hlimits).ge
  have hsecond := hswept.admissions_replicate (hlimits ▸ hrate) hlevel
  rw [burstTwice, Limiter.admissions_append, hfirst, ← hdrained, Limiter.admissions]
  exact congrArg (limits.burst + ·) ((Nat.zero_add _).trans hsecond)

/-- The whole of both bursts. -/
def wholeBurstTwice (limits : Limits Rat) (hburst : 1 ≤ limits.burst) :
    Window (burstTwice limits) where
  before := []
  part := burstTwice limits
  after := []
  key := ""
  first := 0
  last := limits.idleTime + 1
  split := by simp
  head := by
    obtain ⟨count, hcount⟩ := Nat.exists_eq_add_of_le' hburst
    simp [burstTwice, hcount, List.replicate_succ]
  getLast := by
    obtain ⟨count, hcount⟩ := Nat.exists_eq_add_of_le' hburst
    simp [burstTwice, hcount, List.getLast?_cons, List.getLast?_replicate]

/-- In exact arithmetic, and as long as nobody has to make room: a key is admitted no more often
between two of its calls than a full bucket and the tokens gained meanwhile account for, provided
that no sweep between them drops it before its bucket would be full again. That no run breaks this
bound takes settings under which a bucket is always full by the time at which a sweep can drop it,
one nanosecond after the idle time. -/
theorem bound_of_run (limits : Limits Rat) (hrate : 0 < limits.rate) (hburst : 1 ≤ limits.burst) :
    (∀ calls, Orderly limits calls → ∀ window : Window calls, window.DropsFull limits →
        window.Bounded limits) ∧
      ((∀ calls, Orderly limits calls → ∀ window : Window calls, window.Bounded limits) ↔
        limits.burst ≤ limits.rate * seconds (limits.idleTime + 1)) := by
  refine ⟨fun calls horderly window => window.bounded_of_dropsFull hrate horderly, ?_, ?_⟩
  · intro hbounded
    have hwhole : (wholeBurstTwice limits hburst).Bounded limits :=
      hbounded _ (orderly_burstTwice limits) _
    have hcount : (wholeBurstTwice limits hburst).admitted limits =
        limits.burst + limits.burst := admissions_burstTwice hrate
    rw [Window.Bounded, hcount, Nat.cast_add, add_le_add_iff_left, Int.le_floor] at hwhole
    simpa [wholeBurstTwice] using hwhole
  · intro hrefilled calls horderly window
    apply window.bounded_of_dropsFull hrate horderly
    intro front sweptAt back hsplit entry hentry hidle
    have hlater : seconds (limits.idleTime + 1) ≤ seconds (sweptAt - entry.lastSeen) :=
      seconds_le (by omega)
    exact hrefilled.trans (mul_le_mul_of_nonneg_left hlater hrate.le)

/-- Unless told otherwise, a limiter keeps the bound. -/
theorem bound_of_defaults :
    0 < (defaultRate : Rat) ∧ 1 ≤ defaultBurst ∧
      ∀ calls, Orderly { rate := defaultRate, burst := defaultBurst } calls →
        ∀ window : Window calls, window.Bounded { rate := defaultRate, burst := defaultBurst } := by
  have hrate : 0 < (defaultRate : Rat) := by norm_num [defaultRate]
  have hburst : 1 ≤ defaultBurst := by decide
  refine ⟨hrate, hburst, (bound_of_run ⟨_, _, _, _⟩ hrate hburst).2.2 ?_⟩
  norm_num [defaultRate, defaultBurst, defaultIdleTime, seconds]

/-- One request in a thousand seconds, and idle keys that are dropped after ten minutes. -/
def slowLimits : Limits Rat := { rate := 1 / 1000, burst := 1 }

/-- A client who comes back ten minutes and a second later, just after a sweep. -/
def comeback : List Call :=
  [.allow "10.0.0.1" 0, .sweep 601000000000, .allow "10.0.0.1" 601000000000]

/-- The time from the first request of the client to the second one. -/
def wholeComeback : Window comeback where
  before := []
  part := comeback
  after := []
  key := "10.0.0.1"
  first := 0
  last := 601000000000
  split := rfl
  head := rfl
  getLast := rfl

/-- Where a bucket takes longer to fill than a key is kept, a sweep admits more than the bound:
two requests within 601 seconds, where one was due. -/
theorem comeback_not_bounded :
    0 < slowLimits.rate ∧ 1 ≤ slowLimits.burst ∧ Orderly slowLimits comeback ∧
      ¬ wholeComeback.Bounded slowLimits := by
  refine ⟨by norm_num [slowLimits], le_refl 1, ⟨by decide, by decide⟩, ?_⟩
  have hcount : wholeComeback.admitted slowLimits = 2 := by decide +kernel
  have hgain : ⌊slowLimits.rate * seconds (wholeComeback.last - wholeComeback.first)⌋ = 0 := by
    norm_num [slowLimits, wholeComeback, seconds, Int.floor_eq_iff]
  rw [Window.Bounded, hcount, hgain]
  decide

end Upkeep.RateLimit
