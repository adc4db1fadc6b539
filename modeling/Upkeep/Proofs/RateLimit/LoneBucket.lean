/-
# What a bucket decides

A bucket keeps a number of tokens and an instant, and nothing of the calls before. Its decisions
can nonetheless be read off the calls alone: a call is admitted if and only if no window that ends
with it, from whichever earlier call on, would then hold more admissions than a full bucket and the
tokens gained in that window account for. The number that is kept is what the tightest of these
windows still leaves, which is the invariant here: `le_level_takeAll_iff`.

The instant of a call counts only as far as it is later than all before. So a window is as long as
the latest instant has advanced in it, and a call that comes out of order is one at the latest
instant so far.
-/

import Mathlib.Data.List.TakeDrop
import Upkeep.Proofs.RateLimit.Window

namespace Upkeep.RateLimit

/-- The latest of an instant and of those of some calls. -/
def latest (created : Int) (instants : List Int) : Int :=
  instants.foldl max created

/-- How many of the calls from one on and before another are admitted. -/
def admittedBetween (verdicts : List Bool) (first last : Nat) : Nat :=
  ((verdicts.take last).drop first).count true

section Latest

variable (created now : Int) (instants : List Int)

theorem latest_concat : latest created (instants ++ [now]) = max (latest created instants) now := by
  rw [latest, List.foldl_append]
  rfl

theorem le_latest : created ≤ latest created instants := by
  induction instants using List.reverseRecOn with
  | nil => exact le_refl _
  | append_singleton instants now ih =>
      rw [latest_concat]
      exact ih.trans (le_max_left ..)

end Latest

namespace Bucket

/-! ## Calls one after the other -/

section Calls

variable {α : Type} [Arithmetic α]

/-- The bucket after calls at some instants. -/
def takeAll (bucket : Bucket α) (rate burst : α) (instants : List Int) : Bucket α :=
  instants.foldl (fun bucket now => (bucket.take rate burst now).2) bucket

/-- Which of some calls are admitted, in order. -/
def verdicts (bucket : Bucket α) (rate burst : α) : List Int → List Bool
  | [] => []
  | now :: instants =>
    (bucket.take rate burst now).1 :: (bucket.take rate burst now).2.verdicts rate burst instants

variable (bucket : Bucket α) (rate burst : α) (now : Int) (instants more : List Int)

theorem takeAll_append :
    bucket.takeAll rate burst (instants ++ more) =
      (bucket.takeAll rate burst instants).takeAll rate burst more :=
  List.foldl_append

@[simp] theorem length_verdicts :
    (bucket.verdicts rate burst instants).length = instants.length := by
  induction instants generalizing bucket with
  | nil => rfl
  | cons now instants ih => exact congrArg (· + 1) (ih _)

theorem verdicts_append :
    bucket.verdicts rate burst (instants ++ more) =
      bucket.verdicts rate burst instants ++
        (bucket.takeAll rate burst instants).verdicts rate burst more := by
  induction instants generalizing bucket with
  | nil => rfl
  | cons now instants ih => exact congrArg ((bucket.take rate burst now).1 :: ·) (ih _)

theorem take_verdicts (k : Nat) :
    (bucket.verdicts rate burst instants).take k =
      bucket.verdicts rate burst (instants.take k) := by
  induction instants generalizing bucket k with
  | nil => simp [verdicts]
  | cons now instants ih =>
      cases k with
      | zero => rfl
      | succ k => exact congrArg ((bucket.take rate burst now).1 :: ·) (ih _ k)

theorem drop_verdicts (k : Nat) :
    (bucket.verdicts rate burst instants).drop k =
      (bucket.takeAll rate burst (instants.take k)).verdicts rate burst (instants.drop k) := by
  induction instants generalizing bucket k with
  | nil => simp [verdicts]
  | cons now instants ih =>
      cases k with
      | zero => rfl
      | succ k => exact ih _ k

/-- A call is decided by what it finds after the calls before it. -/
theorem getElem?_verdicts {instants : List Int} {k : Nat} (hk : k < instants.length) :
    (bucket.verdicts rate burst instants)[k]? =
      some ((bucket.takeAll rate burst (instants.take k)).take rate burst instants[k]).1 := by
  induction instants generalizing bucket k with
  | nil => cases hk
  | cons now instants ih =>
      cases k with
      | zero => rfl
      | succ k => exact ih _ (Nat.lt_of_succ_lt_succ hk)

/-- A call before the latest instant is one at the latest instant. -/
theorem refill_max :
    bucket.refill rate burst (max bucket.updated now) = bucket.refill rate burst now := by
  have hspan : (max bucket.updated now - bucket.updated).toNat = (now - bucket.updated).toNat := by
    omega
  have hlater : (if bucket.updated < max bucket.updated now then max bucket.updated now
      else bucket.updated) = if bucket.updated < now then now else bucket.updated := by
    split <;> split <;> omega
  rw [refill, refill, hspan, hlater]

/-- A call sees no more of a bucket than what it is refilled to. -/
theorem take_of_refill_eq {bucket other : Bucket α} {rate burst : α} {now later : Int}
    (hsame : bucket.refill rate burst now = other.refill rate burst later) :
    bucket.take rate burst now = other.take rate burst later := by
  rw [take, take, hsame]

/-- What is left behind by a call is as of the latest instant. -/
theorem updated_take :
    (bucket.take rate burst now).2.updated = max bucket.updated now := by
  have hfilled : (bucket.refill rate burst now).updated = max bucket.updated now := by
    show (if bucket.updated < now then now else bucket.updated) = _
    split <;> omega
  rw [← hfilled, take]
  split <;> rfl

theorem updated_takeAll :
    (bucket.takeAll rate burst instants).updated = latest bucket.updated instants := by
  induction instants using List.reverseRecOn with
  | nil => rfl
  | append_singleton instants now ih =>
      rw [takeAll_append, latest_concat, ← ih]
      exact updated_take ..

end Calls

/-! ## Levels -/

section Levels

variable (bucket : Bucket Rat) {rate burst : Rat} {now later : Int}

/-- Whether a call is admitted, and what it leaves, go by the level at the latest instant. -/
theorem exists_take_eq (rate burst : Rat) (now : Int) :
    ∃ verdict : Bool, (verdict = true ↔ 1 ≤ bucket.level rate burst (max bucket.updated now)) ∧
      bucket.take rate burst now =
        (verdict, ⟨bucket.level rate burst (max bucket.updated now) - verdict.toNat,
          max bucket.updated now⟩) := by
  refine ⟨decide (1 ≤ bucket.level rate burst (max bucket.updated now)), decide_eq_true_iff, ?_⟩
  rw [← take_of_refill_eq (bucket.refill_max rate burst now), take_eq (le_max_left ..)]
  by_cases hone : 1 ≤ bucket.level rate burst (max bucket.updated now)
  · simp [hone]
  · simp [hone]

theorem refill_refill (hrate : 0 ≤ rate) (hpast : bucket.updated ≤ now) (hlater : now ≤ later) :
    (bucket.refill rate burst now).refill rate burst later = bucket.refill rate burst later := by
  rw [refill_eq hpast, refill_eq hlater, refill_eq (hpast.trans hlater),
    bucket.level_level hrate hlater]

/-- A call that finds less than a token only refills the bucket. -/
theorem take_of_lt_one {bucket : Bucket Rat} (hempty : (bucket.refill rate burst now).tokens < 1) :
    bucket.take rate burst now = (false, bucket.refill rate burst now) := by
  have hcovers : Arithmetic.covers (bucket.refill rate burst now).tokens
      (Arithmetic.ofCount 1 : Rat) = false := by
    show decide (((1 : Nat) : Rat) ≤ _) = false
    simpa using hempty
  rw [take, hcovers]
  rfl

theorem refill_lt_one_of_denied {bucket : Bucket Rat}
    (hdenied : (bucket.take rate burst now).1 = false) :
    (bucket.refill rate burst now).tokens < 1 := by
  obtain ⟨verdict, hone, htake⟩ := bucket.exists_take_eq rate burst now
  rw [← refill_max, refill_eq (le_max_left ..)]
  rw [htake] at hdenied
  exact not_le.1 fun hle => Bool.false_ne_true (hdenied.symm.trans (hone.2 hle))

theorem level_nonneg {bucket : Bucket Rat} (hrate : 0 ≤ rate) (hburst : 0 ≤ burst)
    (htokens : 0 ≤ bucket.tokens) (hpast : bucket.updated ≤ now) :
    0 ≤ bucket.level rate burst now := by
  have hspan := seconds_nonneg (Int.sub_nonneg_of_le hpast)
  exact le_min (by positivity) hburst

theorem level_mono {bucket : Bucket Rat} (hrate : 0 ≤ rate) (hlater : now ≤ later) :
    bucket.level rate burst now ≤ bucket.level rate burst later := by
  have hspan : seconds (now - bucket.updated) ≤ seconds (later - bucket.updated) :=
    seconds_le (by omega)
  exact min_le_min_right _ (add_le_add_right (mul_le_mul_of_nonneg_right hspan hrate) _)

/-- To have been refilled at an instant, when there is no token to be had even then, makes no
difference to later calls, wherever their instants are. -/
theorem verdicts_refill (hrate : 0 ≤ rate) {bucket : Bucket Rat} (hpast : bucket.updated ≤ later)
    (hempty : (bucket.refill rate burst later).tokens < 1) (instants : List Int) :
    (bucket.refill rate burst later).verdicts rate burst instants =
      bucket.verdicts rate burst instants := by
  induction instants generalizing bucket with
  | nil => rfl
  | cons now instants ih =>
      rcases le_or_gt later now with hle | hgt
      · have hsame : (bucket.refill rate burst later).refill rate burst now =
            bucket.refill rate burst now := bucket.refill_refill hrate hpast hle
        rw [verdicts, verdicts, take_of_refill_eq hsame]
      · set earlier := max bucket.updated now with hearlier
        have hmax := bucket.refill_max rate burst now
        rw [← hearlier] at hmax
        have hle : earlier ≤ later := max_le hpast hgt.le
        -- The call comes before the refill: both buckets deny it, and are then as far apart as
        -- they were.
        have hrefilled : (bucket.refill rate burst later).take rate burst now =
            (false, bucket.refill rate burst later) := by
          have hsame : (bucket.refill rate burst later).refill rate burst now =
              bucket.refill rate burst later := by
            rw [← refill_max, refill_eq hpast]
            show Bucket.refill _ rate burst (max later now) = _
            rw [max_eq_left hgt.le, ← refill_eq hpast, refill_refill _ hrate hpast (le_refl later)]
          rw [take_of_lt_one (by rwa [hsame]), hsame]
        have hlevels : (bucket.refill rate burst now).tokens < 1 := by
          rw [refill_eq hpast] at hempty
          rw [← hmax, refill_eq (le_max_left ..)]
          exact (level_mono hrate hle).trans_lt hempty
        have hagain : (bucket.refill rate burst now).refill rate burst later =
            bucket.refill rate burst later := by
          rw [← hmax, refill_refill _ hrate (le_max_left ..) hle]
        have hupdated : (bucket.refill rate burst now).updated ≤ later := by
          rw [← hmax, refill_eq (le_max_left ..)]
          exact hle
        rw [verdicts, verdicts, hrefilled, take_of_lt_one hlevels, ← hagain,
          ih hupdated (by rwa [hagain])]

end Levels

/-! ## A bucket that is made full -/

section Full

variable {rate burst : Rat} {created : Int} {instants : List Int}

/-- The bucket after calls at some instants, made full before them. -/
abbrev used (rate burst : Rat) (created : Int) (instants : List Int) : Bucket Rat :=
  (full burst created).takeAll rate burst instants

theorem used_concat (rate burst : Rat) (created : Int) (instants : List Int) (now : Int) :
    used rate burst created (instants ++ [now]) =
      ((used rate burst created instants).take rate burst now).2 :=
  takeAll_append ..

theorem updated_used (rate burst : Rat) (created : Int) (instants : List Int) :
    (used rate burst created instants).updated = latest created instants :=
  updated_takeAll ..

/-- The tokens of a bucket are never less than none, and never more than it holds. -/
theorem tokens_used (hrate : 0 ≤ rate) (hburst : 0 ≤ burst) (created : Int)
    (instants : List Int) :
    0 ≤ (used rate burst created instants).tokens ∧
      (used rate burst created instants).tokens ≤ burst := by
  induction instants using List.reverseRecOn with
  | nil => exact ⟨hburst, le_refl burst⟩
  | append_singleton instants now ih =>
      set bucket := used rate burst created instants
      have hnonneg := level_nonneg hrate hburst ih.1 (le_max_left bucket.updated now)
      have hle : bucket.level rate burst (max bucket.updated now) ≤ burst := min_le_right ..
      obtain ⟨verdict, hone, htake⟩ := bucket.exists_take_eq rate burst now
      rw [used_concat, htake]
      cases verdict with
      | false => simpa using ⟨hnonneg, hle⟩
      | true =>
          have hone := hone.1 rfl
          simp only [Bool.toNat_true, Nat.cast_one]
          constructor <;> linarith

/-- The calls of a bucket that is made full, as they are decided. -/
abbrev decisions (rate burst : Rat) (created : Int) (instants : List Int) : List Bool :=
  (full burst created).verdicts rate burst instants

theorem decisions_append (rate burst : Rat) (created : Int) (instants more : List Int) :
    decisions rate burst created (instants ++ more) =
      decisions rate burst created instants ++
        (used rate burst created instants).verdicts rate burst more :=
  verdicts_append ..

theorem drop_decisions (rate burst : Rat) (created : Int) (instants : List Int) (call : Nat) :
    (decisions rate burst created instants).drop call =
      (used rate burst created (instants.take call)).verdicts rate burst (instants.drop call) :=
  drop_verdicts ..

/-- One more decision counts in every window that began before it, and in one of its own. -/
theorem count_drop_concat (verdicts : List Bool) (verdict : Bool) {first : Nat}
    (hfirst : first ≤ verdicts.length) :
    ((verdicts ++ [verdict]).drop first).count true =
      (verdicts.drop first).count true + verdict.toNat := by
  rw [List.drop_append_of_le_length hfirst, List.count_append]
  cases verdict <;> rfl

/-- The level of a bucket is what is left of the tightest window: a number of tokens is there if
and only if it is no more than a full bucket holds, and no more than any window since an earlier
call still leaves. -/
theorem le_level_used_iff (hrate : 0 ≤ rate) (instants : List Int) {later : Int}
    (hlater : latest created instants ≤ later) (tokens : Rat) :
    tokens ≤ (used rate burst created instants).level rate burst later ↔
      tokens ≤ burst ∧ ∀ first < instants.length,
        tokens + (((decisions rate burst created instants).drop first).count true : Nat) ≤
          burst + rate * seconds (later - latest created (instants.take (first + 1))) := by
  induction instants using List.reverseRecOn generalizing later tokens with
  | nil =>
      have hgain : 0 ≤ seconds (later - created) * rate :=
        mul_nonneg (seconds_nonneg (Int.sub_nonneg_of_le hlater)) hrate
      simp only [used, takeAll, List.foldl_nil, level, full, le_min_iff, List.length_nil,
        Nat.not_lt_zero, false_implies, implies_true, and_true, and_iff_right_iff_imp]
      intro hle
      exact hle.trans (le_add_of_nonneg_right hgain)
  | append_singleton instants now ih =>
      set bucket := used rate burst created instants with hbucket
      set latestNow := latest created (instants ++ [now]) with hlatest
      obtain ⟨verdict, -, htake⟩ := bucket.exists_take_eq rate burst now
      rw [updated_used, ← latest_concat, ← hlatest] at htake
      have hearlier : latest created instants ≤ latestNow := by
        rw [hlatest, latest_concat]
        exact le_max_left ..
      have hspan : ∀ instant, seconds (later - instant) =
          seconds (later - latestNow) + seconds (latestNow - instant) := by
        intro instant
        rw [← seconds_add]
        congr 1
        omega
      -- Before the call, the bucket must have held what it gives away now, and gained less since.
      have hbefore : tokens ≤ bucket.level rate burst latestNow - verdict.toNat +
            seconds (later - latestNow) * rate ↔
          tokens + verdict.toNat - rate * seconds (later - latestNow) ≤
            bucket.level rate burst latestNow := by
        constructor <;> intro <;> linarith
      rw [used_concat, ← hbucket, decisions_append, ← hbucket, verdicts, verdicts, htake, level,
        le_min_iff, hbefore, ih hearlier, List.length_append, List.length_singleton]
      constructor
      · rintro ⟨⟨hown, hwindows⟩, hburst⟩
        refine ⟨hburst, fun first hfirst => ?_⟩
        rw [count_drop_concat _ _ (by simpa using Nat.le_of_lt_succ hfirst)]
        rcases Nat.lt_succ_iff_lt_or_eq.1 hfirst with hlt | rfl
        · rw [List.take_append_of_le_length hlt, hspan]
          push_cast
          linarith [hwindows first hlt]
        · simp only [List.drop_of_length_le (length_verdicts ..).le, List.count_nil, Nat.zero_add]
          rw [List.take_of_length_le (by simp), ← hlatest]
          linarith
      · rintro ⟨hburst, hwindows⟩
        refine ⟨⟨?_, fun first hfirst => ?_⟩, hburst⟩
        · have hown := hwindows instants.length (Nat.lt_succ_self _)
          rw [count_drop_concat _ _ (by simp),
            List.drop_of_length_le (length_verdicts ..).le, List.take_of_length_le (by simp),
            ← hlatest] at hown
          push_cast at hown
          simp only [List.count_nil, Nat.cast_zero, zero_add] at hown
          linarith
        · have hwindow := hwindows first (Nat.lt_succ_of_lt hfirst)
          rw [count_drop_concat _ _ (by simpa using hfirst.le),
            List.take_append_of_le_length hfirst, hspan] at hwindow
          push_cast at hwindow
          linarith

end Full

/-! ## Windows -/

/-- The latest instant when a call is made, its own included. -/
def moment (created : Int) (instants : List Int) (call : Nat) : Int :=
  latest created (instants.take (call + 1))

section Windows

variable {rate burst : Rat} {created : Int} {instants : List Int}

/-- The bucket that a call finds has so many tokens if and only if every window that ends with the
call leaves room for them. -/
theorem le_level_call_iff (hrate : 0 ≤ rate) {last : Nat} (hlast : last < instants.length)
    (tokens : Rat) :
    tokens ≤ (used rate burst created (instants.take last)).level rate burst
        (moment created instants last) ↔
      ∀ first ≤ last,
        tokens + (admittedBetween (decisions rate burst created instants) first last : Nat) ≤
          burst +
            rate * seconds (moment created instants last - moment created instants first) := by
  have hlater : latest created (instants.take last) ≤ moment created instants last := by
    rw [moment, List.take_succ_eq_append_getElem hlast, latest_concat]
    exact le_max_left ..
  have hcount : ∀ first, admittedBetween (decisions rate burst created instants) first last =
      ((decisions rate burst created (instants.take last)).drop first).count true := by
    intro first
    rw [admittedBetween, take_verdicts]
  have hlength : (instants.take last).length = last := List.length_take_of_le hlast.le
  rw [le_level_used_iff hrate _ hlater, hlength]
  constructor
  · rintro ⟨hburst, hwindows⟩ first hfirst
    rw [hcount]
    rcases hfirst.lt_or_eq with hlt | rfl
    · have hwindow := hwindows first hlt
      rwa [List.take_take, min_eq_left hlt] at hwindow
    · rw [List.drop_of_length_le (by simp [hlength])]
      simpa [seconds] using hburst
  · intro hwindows
    refine ⟨?_, fun first hfirst => ?_⟩
    · have hown := hwindows last (le_refl last)
      rw [hcount, List.drop_of_length_le (by simp [hlength])] at hown
      simpa [seconds] using hown
    · have hwindow := hwindows first hfirst.le
      rw [hcount] at hwindow
      rwa [List.take_take, min_eq_left hfirst]

/-- What a call finds decides it. -/
theorem exists_decision (rate burst : Rat) (created : Int) {last : Nat}
    (hlast : last < instants.length) :
    ∃ verdict : Bool, (decisions rate burst created instants)[last]? = some verdict ∧
      (verdict = true ↔ 1 ≤ (used rate burst created (instants.take last)).level rate burst
        (moment created instants last)) := by
  obtain ⟨verdict, hone, htake⟩ :=
    (used rate burst created (instants.take last)).exists_take_eq rate burst instants[last]
  rw [updated_used, ← latest_concat, ← List.take_succ_eq_append_getElem hlast] at hone
  exact ⟨verdict, by rw [getElem?_verdicts _ _ _ hlast, htake], hone⟩

end Windows

/-- What is decided of the calls of a bucket that is made full at an instant. -/
structure DecidesByWindows (rate burst : Rat) (created : Int) (instants : List Int) : Prop where
  /-- A call is admitted if and only if there is room for it in every window that ends with it. So
  no call is denied that could have been admitted. -/
  admitted_iff : ∀ last < instants.length,
    (decisions rate burst created instants)[last]? = some true ↔
      ∀ first ≤ last,
        (admittedBetween (decisions rate burst created instants) first last : Rat) + 1 ≤
          burst + rate * seconds (moment created instants last - moment created instants first)
  /-- No window holds more admissions than there was room for. -/
  bounded : ∀ last < instants.length, ∀ first ≤ last,
    (admittedBetween (decisions rate burst created instants) first (last + 1) : Rat) ≤
      burst + rate * seconds (moment created instants last - moment created instants first)
  /-- Nothing would be decided differently if a call that was denied had not been made. -/
  denied : ∀ call, (decisions rate burst created instants)[call]? = some false →
    decisions rate burst created (instants.eraseIdx call) =
      (decisions rate burst created instants).eraseIdx call
  /-- Nothing would be decided differently if a call that came out of order had been made at the
  latest instant before it. -/
  tardy : ∀ call now, instants[call]? = some now → now ≤ latest created (instants.take call) →
    decisions rate burst created (instants.set call (latest created (instants.take call))) =
      decisions rate burst created instants
  /-- There are never less tokens than none, nor more than the bucket holds. -/
  tokens : ∀ calls, 0 ≤ (used rate burst created (instants.take calls)).tokens ∧
    (used rate burst created (instants.take calls)).tokens ≤ burst

section Decisions

variable {rate : Rat} (hrate : 0 ≤ rate) (burst : Rat) (created : Int) (instants : List Int)

include hrate in
/-- A call that was denied can be left out. -/
theorem decisions_eraseIdx {call : Nat}
    (hdenied : (decisions rate burst created instants)[call]? = some false) :
    decisions rate burst created (instants.eraseIdx call) =
      (decisions rate burst created instants).eraseIdx call := by
  have hcall : call < instants.length := by
    rw [← length_verdicts (full burst created) rate burst]
    exact (List.getElem?_eq_some_iff.1 hdenied).1
  rw [getElem?_verdicts _ _ _ hcall, Option.some.injEq] at hdenied
  set bucket := used rate burst created (instants.take call) with hbucket
  have hempty := refill_lt_one_of_denied hdenied
  have hafter : used rate burst created (instants.take (call + 1)) =
      bucket.refill rate burst instants[call] := by
    rw [List.take_succ_eq_append_getElem hcall, used_concat, ← hbucket, take_of_lt_one hempty]
  rw [← refill_max] at hafter hempty
  rw [List.eraseIdx_eq_take_drop_succ, List.eraseIdx_eq_take_drop_succ, take_verdicts,
    drop_decisions, decisions_append, ← hbucket, hafter,
    verdicts_refill hrate (le_max_left ..) hempty]

/-- A call that came out of order can be made at the latest instant before it. -/
theorem decisions_set {call : Nat} {now : Int} (hcall : instants[call]? = some now)
    (htardy : now ≤ latest created (instants.take call)) :
    decisions rate burst created (instants.set call (latest created (instants.take call))) =
      decisions rate burst created instants := by
  obtain ⟨hlt, rfl⟩ := List.getElem?_eq_some_iff.1 hcall
  have hsplit : instants = instants.take call ++ instants[call] :: instants.drop (call + 1) := by
    rw [List.cons_getElem_drop_succ, List.take_append_drop]
  set bucket := used rate burst created (instants.take call) with hbucket
  have hsame : bucket.take rate burst (latest created (instants.take call)) =
      bucket.take rate burst instants[call] := by
    apply take_of_refill_eq
    rw [← refill_max _ rate burst instants[call], hbucket, updated_used, max_eq_left htardy]
  conv_rhs => rw [hsplit]
  rw [List.set_eq_take_append_cons_drop, if_pos hlt, decisions_append, decisions_append, ← hbucket,
    verdicts, verdicts, hsame]

end Decisions

/-- In exact arithmetic, a bucket that is made full decides by its windows, at whatever instants
it is called, in whatever order. -/
theorem decidesByWindows_of_calls {rate burst : Rat} (hrate : 0 ≤ rate) (hburst : 0 ≤ burst)
    (created : Int) (instants : List Int) : DecidesByWindows rate burst created instants where
  admitted_iff last hlast := by
    obtain ⟨verdict, hverdict, hone⟩ := exists_decision rate burst created hlast
    rw [hverdict, Option.some.injEq, hone, le_level_call_iff hrate hlast]
    simp only [add_comm]
  bounded last hlast first hfirst := by
    obtain ⟨verdict, hverdict, hone⟩ := exists_decision rate burst created hlast
    have hfound : (verdict.toNat : Rat) ≤ (used rate burst created
        (instants.take last)).level rate burst (moment created instants last) := by
      cases verdict with
      | false =>
          have htokens := tokens_used hrate hburst created (instants.take last)
          have hpast : (used rate burst created (instants.take last)).updated ≤
              moment created instants last := by
            rw [updated_used, moment, List.take_succ_eq_append_getElem hlast, latest_concat]
            exact le_max_left ..
          exact level_nonneg hrate hburst htokens.1 hpast
      | true => simpa using hone.1 rfl
    have hwindow := (le_level_call_iff hrate hlast _).1 hfound first hfirst
    have hcount : admittedBetween (decisions rate burst created instants) first (last + 1) =
        admittedBetween (decisions rate burst created instants) first last + verdict.toNat := by
      rw [admittedBetween, List.take_add_one, hverdict]
      exact count_drop_concat _ _ (by simpa using ⟨hfirst, hfirst.trans hlast.le⟩)
    rw [hcount, Nat.cast_add, add_comm]
    exact hwindow
  denied call hdenied := decisions_eraseIdx hrate burst created instants hdenied
  tardy call now hcall htardy := decisions_set burst created instants hcall htardy
  tokens calls := tokens_used hrate hburst created (instants.take calls)

/-- Two tokens, and one more after a second: of five calls the third comes too early, the fourth
takes the new token, and the last, which comes out of order, finds none. -/
theorem decidesByWindows_of_five :
    (0 : Rat) ≤ 1 ∧ (0 : Rat) ≤ 2 ∧
      decisions 1 2 0 [0, 0, 500000000, 1000000000, 700000000] = [true, true, false, true, false] ∧
        DecidesByWindows 1 2 0 [0, 0, 500000000, 1000000000, 700000000] :=
  ⟨by norm_num, by norm_num, by decide +kernel,
    decidesByWindows_of_calls (by norm_num) (by norm_num) 0 _⟩

end Bucket

end Upkeep.RateLimit
