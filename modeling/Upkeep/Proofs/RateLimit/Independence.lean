/-
# Keys are independent

All keys of a limiter stand in one list, in which they take each other's room. Yet a call for one
key cannot do anything to another key but drop it, and whatever is known of a key was made by calls
for that key. So each key is treated as if it had a bucket to itself, which was made full when the
key was last inserted and has been asked by every call for the key since then; and calls for other
keys make no difference to it apart from when it was inserted.

At the bound, it is the key that has not been seen for longest that is dropped. If that holds of
several keys, any of them may be: it depends on the order in which the entries are looked through,
and this is nothing that a limiter promises. The runs here therefore rearrange the entries before
each call in any way.
-/

import Upkeep.Proofs.RateLimit.LoneBucket

namespace Upkeep.RateLimit

/-! ## Runs in which the entries come in any order -/

/-- A call, and the limiter as it finds it. -/
structure Moment (α : Type) where
  limiter : Limiter α
  call : Call

namespace Limiter

variable {α : Type}

/-- The same entries, perhaps in another order. -/
structure Rearranged (limiter other : Limiter α) : Prop where
  limits : other.limits = limiter.limits
  tracked : other.tracked.Perm limiter.tracked

/-- The calls that a limiter has seen since it was set up, and the limiter after them. -/
inductive Runs [Arithmetic α] (limits : Limits α) : List (Moment α) → Limiter α → Prop
  | nil : Runs limits [] (ofLimits limits)
  | concat {moments : List (Moment α)} {limiter found : Limiter α}
      (hruns : Runs limits moments limiter) (hfound : limiter.Rearranged found) (call : Call) :
      Runs limits (moments ++ [⟨found, call⟩]) (found.perform call)

/-- The moments of a run that leaves the entries in their order. -/
def moments [Arithmetic α] (limiter : Limiter α) : List Call → List (Moment α)
  | [] => []
  | call :: calls => ⟨limiter, call⟩ :: (limiter.perform call).moments calls

section Runs

variable [Arithmetic α] {limits : Limits α} {moments : List (Moment α)} {limiter found : Limiter α}

theorem moments_concat (limiter : Limiter α) (calls : List Call) (call : Call) :
    limiter.moments (calls ++ [call]) = limiter.moments calls ++ [⟨limiter.run calls, call⟩] := by
  induction calls generalizing limiter with
  | nil => rfl
  | cons first calls ih => exact congrArg (⟨limiter, first⟩ :: ·) (ih _)

/-- To leave the entries in their order is one way to run. -/
theorem runs_moments (limits : Limits α) (calls : List Call) :
    Runs limits ((ofLimits limits).moments calls) ((ofLimits limits).run calls) := by
  induction calls using List.reverseRecOn with
  | nil => exact .nil
  | append_singleton calls call ih =>
      rw [moments_concat, run_concat]
      exact ih.concat ⟨rfl, .refl _⟩ call

theorem Runs.limits_eq (hruns : Runs limits moments limiter) :
    limiter.limits = (ofLimits limits).limits := by
  induction hruns with
  | nil => rfl
  | concat _ hfound call ih => exact (limits_perform _ call).trans (hfound.limits.trans ih)

omit [Arithmetic α] in
theorem Rearranged.distinct (hfound : limiter.Rearranged found) (hdistinct : limiter.Distinct) :
    found.Distinct :=
  (hfound.tracked.map (·.key)).nodup_iff.2 hdistinct

theorem Runs.distinct (hruns : Runs limits moments limiter) : limiter.Distinct := by
  induction hruns with
  | nil => exact List.nodup_nil
  | concat _ hfound call ih => exact (hfound.distinct ih).perform call

omit [Arithmetic α] in
/-- What is known of a key does not depend on the order of the entries. -/
theorem Rearranged.find?_eq (hfound : limiter.Rearranged found) (hdistinct : limiter.Distinct)
    (key : String) : found.find? key = limiter.find? key := by
  apply Option.ext
  intro entry
  rw [(hfound.distinct hdistinct).find?_eq_some_iff, hdistinct.find?_eq_some_iff,
    hfound.tracked.mem_iff]

/-- The last call of a run was performed on what the run had come to before. -/
theorem Runs.of_concat {moment : Moment α} (hruns : Runs limits (moments ++ [moment]) limiter) :
    ∃ before, Runs limits moments before ∧ before.Rearranged moment.limiter := by
  generalize hall : moments ++ [moment] = all at hruns
  cases hruns with
  | nil => simp at hall
  | concat hruns hfound call =>
      obtain ⟨rfl, rfl⟩ := List.append_singleton_inj.1 hall
      exact ⟨_, hruns, hfound⟩

/-- A run has come through each of its moments. -/
theorem Runs.before {front back : List (Moment α)} {moment : Moment α}
    (hruns : Runs limits (front ++ moment :: back) limiter) :
    ∃ before, Runs limits front before ∧ before.Rearranged moment.limiter := by
  induction back using List.reverseRecOn generalizing limiter with
  | nil => exact hruns.of_concat
  | append_singleton back last ih =>
      rw [← List.cons_append, ← List.append_assoc] at hruns
      obtain ⟨before, hbefore, -⟩ := hruns.of_concat
      exact ih hbefore

end Runs

/-! ## What is known of a key -/

section Entries

variable [Arithmetic α] {limiter : Limiter α} {key other : String} {now : Int}

/-- A call takes from the bucket of its key, or from a full one if nothing is known of the key,
and leaves what is left of it as what is known of the key. -/
theorem exists_allow_eq (limiter : Limiter α) (key : String) (now : Int) :
    ∃ bucket, (limiter.find? key = none ∧
          bucket = Bucket.full (Arithmetic.ofCount limiter.limits.burst) now ∨
        ∃ entry, limiter.find? key = some entry ∧ bucket = entry.bucket) ∧
      (limiter.allow key now).1 =
        (bucket.take limiter.limits.rate (Arithmetic.ofCount limiter.limits.burst) now).1 ∧
      (limiter.allow key now).2.find? key =
        some ⟨key, (bucket.take limiter.limits.rate
          (Arithmetic.ofCount limiter.limits.burst) now).2, now⟩ := by
  cases hfind : limiter.find? key with
  | none =>
      refine ⟨_, .inl ⟨rfl, rfl⟩, ?_⟩
      rw [allow, hfind]
      exact ⟨rfl, find?_concat_without ..⟩
  | some entry =>
      refine ⟨_, .inr ⟨entry, rfl, rfl⟩, ?_⟩
      rw [allow, hfind]
      exact ⟨rfl, find?_concat_without ..⟩

/-- Calls for a key are answered alike by limiters that know the same of it. -/
theorem allow_congr {lone : Limiter α} (hlimits : lone.limits = limiter.limits)
    (hfind : lone.find? key = limiter.find? key) (now : Int) :
    (lone.allow key now).1 = (limiter.allow key now).1 ∧
      (lone.allow key now).2.find? key = (limiter.allow key now).2.find? key := by
  unfold allow
  rw [hfind, hlimits]
  exact ⟨rfl, (find?_concat_without ..).trans (find?_concat_without ..).symm⟩

omit [Arithmetic α] in
/-- To make room either leaves what is known of a key or drops it. -/
theorem find?_roomFor (limiter : Limiter α) (key other : String) :
    (limiter.roomFor other).find? (·.key = key) = limiter.find? key ∨
      (limiter.roomFor other).find? (·.key = key) = none := by
  unfold roomFor
  split
  · exact .inl rfl
  split
  · exact .inl rfl
  next stale _ =>
    by_cases hkey : key = stale.key
    · right
      rw [List.find?_eq_none]
      intro entry hentry
      simpa [hkey] using (mem_without.1 hentry).2
    · exact .inl (find?_without hkey)

/-- A call for another key drops a key. -/
def Evicts (limiter : Limiter α) (other key : String) (now : Int) : Prop :=
  limiter.contains key = true ∧ (limiter.allow other now).2.contains key = false

instance (limiter : Limiter α) (other key : String) (now : Int) :
    Decidable (limiter.Evicts other key now) :=
  inferInstanceAs (Decidable (_ ∧ _))

/-- That is all that a call can do to another key. -/
theorem find?_allow_of_ne (hother : key ≠ other) :
    (limiter.allow other now).2.find? key =
      if limiter.Evicts other key now then none else limiter.find? key := by
  have hcontains : ∀ some : Limiter α, some.contains key = false ↔ some.find? key = none := by
    intro some
    rw [contains, Option.isSome_eq_false_iff, Option.isNone_iff_eq_none]
  split
  next hevicts => exact (hcontains _).1 hevicts.2
  next hkept =>
    rcases limiter.find?_roomFor key other with hstill | hgone
    · rw [find?_allow_other hother, hstill]
    · rw [find?_allow_other hother, hgone]
      rw [Evicts, hcontains, find?_allow_other hother, hgone, and_iff_left rfl,
        Bool.not_eq_true, hcontains] at hkept
      exact hkept.symm

end Entries

end Limiter

/-! ## A bucket to itself -/

section Lone

variable {α : Type} {key : String} {moments since : List (Moment α)} {moment : Moment α}
  {created now : Int}

/-- The instants of the calls for a key, in order. -/
def instantsFor (key : String) (moments : List (Moment α)) : List Int :=
  moments.filterMap fun moment =>
    if moment.call.key? = some key then some moment.call.instant else none

/-- A key was last inserted by a call at an instant, and these moments came after it: nothing was
known of the key when it was called then, and something was whenever it has been called since. -/
structure Inserted (key : String) (moments : List (Moment α)) (created : Int)
    (since : List (Moment α)) : Prop where
  split : ∃ earlier found, moments = earlier ++ ⟨found, .allow key created⟩ :: since ∧
    found.contains key = false
  kept : ∀ moment ∈ since, moment.call.key? = some key → moment.limiter.contains key = true

theorem instantsFor_concat_self (moments : List (Moment α)) (found : Limiter α) (key : String)
    (now : Int) :
    instantsFor key (moments ++ [⟨found, .allow key now⟩]) = instantsFor key moments ++ [now] := by
  simp [instantsFor, Call.key?, Call.instant]

theorem instantsFor_concat_other (moments : List (Moment α))
    (hother : moment.call.key? ≠ some key) :
    instantsFor key (moments ++ [moment]) = instantsFor key moments := by
  simp [instantsFor, hother]

/-- The insertion stays the last one as long as the key is known when it is called. -/
theorem Inserted.concat (hinserted : Inserted key moments created since)
    (hkept : moment.call.key? = some key → moment.limiter.contains key = true) :
    Inserted key (moments ++ [moment]) created (since ++ [moment]) where
  split := by
    obtain ⟨earlier, found, rfl, hunknown⟩ := hinserted.split
    exact ⟨earlier, found, by simp, hunknown⟩
  kept other hother := by
    rcases List.mem_append.1 hother with hbefore | hlast
    · exact hinserted.kept other hbefore
    · rw [List.mem_singleton.1 hlast]
      exact hkept

variable [Arithmetic α] {limits : Limits α} {limiter found : Limiter α}

/-- What a bucket answers last that was made full at an instant and is asked at these instants. -/
def loneAnswer? (limits : Limits α) (created : Int) (instants : List Int) : Option Bool :=
  ((Bucket.full (Arithmetic.ofCount limits.burst) created).verdicts limits.rate
    (Arithmetic.ofCount limits.burst) instants).getLast?

/-- An entry is what calls at these instants have left of a bucket that was made full at an
instant, and it was seen at the last of them. -/
structure Tracked.LeftBy (entry : Tracked α) (limits : Limits α) (created : Int)
    (instants : List Int) : Prop where
  bucket : entry.bucket =
    (Bucket.full (Arithmetic.ofCount limits.burst) created).takeAll limits.rate
      (Arithmetic.ofCount limits.burst) instants
  lastSeen : instants.getLast? = some entry.lastSeen

/-- What is known of a key was left by its calls since it was last inserted. -/
def LeftBySelf (limits : Limits α) (key : String) (moments : List (Moment α))
    (limiter : Limiter α) : Prop :=
  ∀ entry, limiter.find? key = some entry → ∃ created since, Inserted key moments created since ∧
    entry.LeftBy limits created (created :: instantsFor key since)

/-- A call takes from what the earlier calls since the key was last inserted have left of a full
bucket; if it inserts the key, there is no earlier one. -/
theorem LeftBySelf.exists_inserted (hleft : LeftBySelf limits key moments found)
    (hlimits : found.limits = (Limiter.ofLimits limits).limits) (now : Int) :
    ∃ created since, Inserted key (moments ++ [⟨found, .allow key now⟩]) created since ∧
      loneAnswer? limits created (created :: instantsFor key since) =
        some (found.allow key now).1 ∧
      ∃ entry, (found.allow key now).2.find? key = some entry ∧
        entry.LeftBy limits created (created :: instantsFor key since) := by
  obtain ⟨bucket, hbucket, hanswer, hfind⟩ := found.exists_allow_eq key now
  rw [hlimits] at hbucket hanswer hfind
  have hlast : ∀ created before,
      bucket = (Bucket.full (Arithmetic.ofCount limits.burst) created).takeAll limits.rate
        (Arithmetic.ofCount limits.burst) before →
      loneAnswer? limits created (before ++ [now]) = some (found.allow key now).1 ∧
        ∃ entry, (found.allow key now).2.find? key = some entry ∧
          entry.LeftBy limits created (before ++ [now]) := by
    rintro created before rfl
    constructor
    · rw [loneAnswer?, Bucket.verdicts_append, hanswer]
      exact List.getLast?_concat
    · refine ⟨_, hfind, ?_, List.getLast?_concat⟩
      rw [Bucket.takeAll_append]
      rfl
  rcases hbucket with ⟨hunknown, rfl⟩ | ⟨entry, hknown, rfl⟩
  · refine ⟨now, [], ⟨⟨moments, found, rfl, ?_⟩, nofun⟩, hlast now [] rfl⟩
    rw [Limiter.contains, hunknown]
    rfl
  · obtain ⟨created, since, hinserted, hentry⟩ := hleft entry hknown
    refine ⟨created, since ++ [⟨found, .allow key now⟩], hinserted.concat fun _ => ?_, ?_⟩
    · rw [Limiter.contains, hknown]
      rfl
    · rw [instantsFor_concat_self, ← List.cons_append]
      exact hlast created _ hentry.bucket

/-- Whatever calls there are: what is known of a key was left by its own ones. -/
theorem Limiter.Runs.leftBySelf (hruns : Runs limits moments limiter) (key : String) :
    LeftBySelf limits key moments limiter := by
  induction hruns with
  | nil =>
      intro entry hfind
      cases hfind
  | @concat moments limiter found hruns hfound call ih =>
      have hleft : LeftBySelf limits key moments found := by
        intro entry hfind
        rw [hfound.find?_eq hruns.distinct] at hfind
        exact ih entry hfind
      -- What is still known after a call that is not for the key has been known before it.
      have hstill : ∀ entry, call.key? ≠ some key → found.find? key = some entry →
          ∃ created since, Inserted key (moments ++ [⟨found, call⟩]) created since ∧
            entry.LeftBy limits created (created :: instantsFor key since) := by
        intro entry hother hfind
        obtain ⟨created, since, hinserted, hentry⟩ := hleft entry hfind
        refine ⟨created, since ++ [⟨found, call⟩], hinserted.concat fun hkey => ?_, ?_⟩
        · exact absurd hkey hother
        · rw [instantsFor_concat_other _ hother]
          exact hentry
      intro entry hfind
      cases call with
      | sweep now =>
          have hne : (Call.sweep now).key? ≠ some key := (Option.some_ne_none key).symm
          rw [perform, (hfound.distinct hruns.distinct).find?_sweep] at hfind
          exact hstill entry hne (Option.filter_eq_some_iff.1 hfind).1
      | allow other now =>
          by_cases hother : other = key
          · subst hother
            have hlimits := hfound.limits.trans hruns.limits_eq
            obtain ⟨created, since, hinserted, -, after, hafter, hentry⟩ :=
              hleft.exists_inserted hlimits now
            rw [perform, hafter, Option.some.injEq] at hfind
            exact ⟨created, since, hinserted, hfind ▸ hentry⟩
          · have hne : (Call.allow other now).key? ≠ some key :=
              fun hkey => hother (Option.some.inj hkey)
            rw [perform, find?_allow_of_ne (Ne.symm hother)] at hfind
            split at hfind
            · cases hfind
            · exact hstill entry hne hfind

end Lone

/-! ## What a key meets with -/

/-- What a key meets with in a run. -/
inductive Encounter where
  /-- A call for the key itself, or a sweep. -/
  | own (call : Call)
  /-- A call for another key that drops this one. -/
  | evicted
deriving DecidableEq, Repr

/-- A call is for a key or a sweep. -/
def Call.Concerns (call : Call) (key : String) : Prop :=
  call.key? = none ∨ call.key? = some key

instance (call : Call) (key : String) : Decidable (call.Concerns key) :=
  inferInstanceAs (Decidable (_ ∨ _))

section Encounters

variable {α : Type} [Arithmetic α] {key : String} {moments : List (Moment α)} {moment : Moment α}

/-- What a key meets with when a call is made. Most calls for other keys are nothing to it. -/
def Limiter.encounter? (limiter : Limiter α) (key : String) : Call → Option Encounter
  | .sweep now => some (.own (.sweep now))
  | .allow other now =>
    if other = key then some (.own (.allow other now))
    else if limiter.Evicts other key now then some .evicted
    else none

/-- What a key meets with, in order. -/
def course (key : String) (moments : List (Moment α)) : List Encounter :=
  moments.filterMap fun moment => moment.limiter.encounter? key moment.call

/-- What the calls for a key are answered, in order. -/
def answersTo (key : String) (moments : List (Moment α)) : List Bool :=
  moments.filterMap fun moment =>
    if moment.call.key? = some key then moment.limiter.answer? moment.call else none

namespace Limiter

/-- What an encounter leaves of a limiter that has no other key. -/
def meet (limiter : Limiter α) : Encounter → Limiter α
  | .own call => limiter.perform call
  | .evicted => ⟨limiter.limits, []⟩

/-- What a limiter that has no other key answers when the key meets with all this. -/
def replies (limiter : Limiter α) : List Encounter → List Bool
  | [] => []
  | .own call :: rest => (limiter.answer? call).toList ++ (limiter.perform call).replies rest
  | .evicted :: rest => (limiter.meet .evicted).replies rest

theorem replies_append (limiter : Limiter α) (encounters more : List Encounter) :
    limiter.replies (encounters ++ more) =
      limiter.replies encounters ++ (encounters.foldl meet limiter).replies more := by
  induction encounters generalizing limiter with
  | nil => rfl
  | cons encounter encounters ih =>
      cases encounter with
      | own call =>
          rw [List.cons_append, replies, replies, ih, List.append_assoc]
          rfl
      | evicted => exact ih _

/-- Without evictions, a limiter answers as it does. -/
theorem replies_own (limiter : Limiter α) (calls : List Call) :
    limiter.replies (calls.map .own) = limiter.answers calls := by
  induction calls generalizing limiter with
  | nil => rfl
  | cons call calls ih => exact congrArg ((limiter.answer? call).toList ++ ·) (ih _)

/-- A limiter that has no other key knows the same of its key as the limiter of a run. -/
structure AsFarAs (lone limiter : Limiter α) (key : String) : Prop where
  limits : lone.limits = limiter.limits
  distinct : lone.Distinct
  find? : lone.find? key = limiter.find? key

/-- One call in a run keeps the two together. -/
theorem AsFarAs.concat {lone limiter : Limiter α} (hfar : lone.AsFarAs limiter key)
    (hdistinct : limiter.Distinct) (call : Call) :
    ((limiter.encounter? key call).toList.foldl meet lone).AsFarAs (limiter.perform call) key ∧
      lone.replies (limiter.encounter? key call).toList = answersTo key [⟨limiter, call⟩] := by
  cases call with
  | sweep now =>
      refine ⟨⟨hfar.limits, hfar.distinct.perform (.sweep now), ?_⟩, rfl⟩
      show (lone.sweep now).find? key = (limiter.sweep now).find? key
      rw [hfar.distinct.find?_sweep, hdistinct.find?_sweep, hfar.find?]
      congr 1
      funext entry
      rw [isFresh, isFresh, hfar.limits]
  | allow other now =>
      by_cases hother : other = key
      · subst hother
        obtain ⟨hanswer, hfind⟩ := allow_congr hfar.limits hfar.find? now
        simp only [encounter?, if_true, Option.toList_some, List.foldl_cons, List.foldl_nil]
        refine ⟨⟨hfar.limits, hfar.distinct.perform (.allow other now), hfind⟩, ?_⟩
        simp [replies, answersTo, answer?, Call.key?, hanswer]
      · have hno : answersTo key [(⟨limiter, .allow other now⟩ : Moment α)] = [] := by
          simp [answersTo, Call.key?, hother]
        rw [hno, encounter?, if_neg hother]
        have hfind : (limiter.allow other now).2.find? key = _ := find?_allow_of_ne (Ne.symm hother)
        by_cases hevicts : limiter.Evicts other key now
        · rw [if_pos hevicts] at hfind ⊢
          exact ⟨⟨hfar.limits, List.nodup_nil, hfind.symm⟩, rfl⟩
        · rw [if_neg hevicts] at hfind ⊢
          exact ⟨⟨hfar.limits, hfar.distinct, hfar.find?.trans hfind.symm⟩, rfl⟩

/-- A run and the encounters of a key in it come equally far. -/
theorem Runs.asFarAs {limits : Limits α} {limiter : Limiter α} (hruns : Runs limits moments limiter)
    (key : String) :
    ((course key moments).foldl meet (ofLimits limits)).AsFarAs limiter key ∧
      answersTo key moments = (ofLimits limits).replies (course key moments) := by
  induction hruns with
  | nil => exact ⟨⟨rfl, List.nodup_nil, rfl⟩, rfl⟩
  | @concat moments limiter found hruns hfound call ih =>
      have hfar : ((course key moments).foldl meet (ofLimits limits)).AsFarAs found key :=
        ⟨ih.1.limits.trans hfound.limits.symm, ih.1.distinct,
          ih.1.find?.trans (hfound.find?_eq hruns.distinct key).symm⟩
      have hcourse : course key (moments ++ [⟨found, call⟩]) =
          course key moments ++ (found.encounter? key call).toList := by
        rw [course, List.filterMap_append]
        rfl
      have hanswers : answersTo key (moments ++ [⟨found, call⟩]) =
          answersTo key moments ++ answersTo key [⟨found, call⟩] := List.filterMap_append
      have hstep := hfar.concat (hfound.distinct hruns.distinct) call
      rw [hcourse, hanswers, List.foldl_append, replies_append, ih.2, hstep.2]
      exact ⟨hstep.1, rfl⟩

/-- A key meets with the calls that are for it and the sweeps. -/
theorem encounter?_of_concerns {call : Call} (hconcerns : call.Concerns key) (limiter : Limiter α) :
    limiter.encounter? key call = some (.own call) := by
  cases call with
  | sweep now => rfl
  | allow other now => exact if_pos (by simpa [Call.Concerns, Call.key?] using hconcerns)

/-- Of the other calls, it can only meet with an eviction. -/
theorem encounter?_of_not_concerns {call : Call} (hother : ¬ call.Concerns key)
    (limiter : Limiter α) :
    limiter.encounter? key call = none ∨ limiter.encounter? key call = some .evicted := by
  cases call with
  | sweep now => exact absurd (.inl rfl) hother
  | allow other now =>
      rw [encounter?, if_neg fun hkey => hother (.inr (congrArg some hkey))]
      split
      · exact .inr rfl
      · exact .inl rfl

/-- Where a key is not evicted, it meets with nothing else. -/
theorem course_of_notMem (hkept : .evicted ∉ course key moments) :
    course key moments =
      ((moments.map (·.call)).filter fun call => call.Concerns key).map Encounter.own := by
  induction moments with
  | nil => rfl
  | cons moment moments ih =>
      have hcourse : course key (moment :: moments) =
          (moment.limiter.encounter? key moment.call).toList ++ course key moments := by
        rw [course, List.filterMap_cons]
        cases moment.limiter.encounter? key moment.call <;> rfl
      rw [hcourse] at hkept ⊢
      rw [ih fun hevicted => hkept (List.mem_append_right _ hevicted), List.map_cons]
      by_cases hconcerns : moment.call.Concerns key
      · rw [encounter?_of_concerns hconcerns, List.filter_cons_of_pos (by simpa using hconcerns)]
        rfl
      · rw [List.filter_cons_of_neg (by simpa using hconcerns)]
        rcases encounter?_of_not_concerns hconcerns moment.limiter with hnone | hevicted
        · rw [hnone]
          rfl
        · rw [hevicted] at hkept
          exact absurd (List.mem_append_left _ List.mem_cons_self) hkept

end Limiter

/-- What a key has to do with the other keys of a limiter, in any run of it. -/
structure Independent (limits : Limits α) (moments : List (Moment α)) (key : String) : Prop where
  /-- Every call for the key is answered as by a bucket that was made full when the key was last
  inserted and has been asked by every call for the key since then. -/
  lone : ∀ front found now back, moments = front ++ ⟨found, .allow key now⟩ :: back →
    ∃ created since, Inserted key (front ++ [⟨found, .allow key now⟩]) created since ∧
      loneAnswer? limits created (created :: instantsFor key since) =
        some (found.allow key now).1
  /-- The calls for other keys may be whatever they like: as long as the key is evicted at the same
  points, it is answered alike. -/
  others : ∀ elsewhere limiter, Limiter.Runs limits elsewhere limiter →
    course key elsewhere = course key moments → answersTo key elsewhere = answersTo key moments
  /-- If the key is not evicted, it is answered as if no other key were ever called. -/
  undisturbed : .evicted ∉ course key moments →
    answersTo key moments = (Limiter.ofLimits limits).answers
      ((moments.map (·.call)).filter fun call => call.Concerns key)

/-- In every run of a limiter, whatever its settings, its calls and their instants, and whatever
arithmetic it counts in: each key is answered as if it had a bucket to itself, and the other keys
have no say in the matter apart from evicting it. -/
theorem independent_of_runs {limits : Limits α} {limiter : Limiter α}
    (hruns : Limiter.Runs limits moments limiter) (key : String) :
    Independent limits moments key where
  lone front found now back hsplit := by
    rw [hsplit] at hruns
    obtain ⟨before, hbefore, hfound⟩ := hruns.before
    have hleft : LeftBySelf limits key front found := by
      intro entry hfind
      rw [hfound.find?_eq hbefore.distinct] at hfind
      exact hbefore.leftBySelf key entry hfind
    obtain ⟨created, since, hinserted, hanswer, -⟩ :=
      hleft.exists_inserted (hfound.limits.trans hbefore.limits_eq) now
    exact ⟨created, since, hinserted, hanswer⟩
  others elsewhere other helsewhere hcourse := by
    rw [(helsewhere.asFarAs key).2, (hruns.asFarAs key).2, hcourse]
  undisturbed hkept := by
    rw [(hruns.asFarAs key).2, Limiter.course_of_notMem hkept, Limiter.replies_own]

end Encounters

/-- Room for two keys, which have one token each. -/
def twoKeys : Limits Rat := { rate := 1, burst := 1, maxKeys := 2 }

/-- Three keys that do not leave each other room. -/
def crowd : List Call :=
  [.allow "10.0.0.1" 0, .allow "10.0.0.2" 1, .allow "10.0.0.1" 2, .allow "10.0.0.3" 3,
    .allow "10.0.0.2" 4, .allow "10.0.0.1" 5]

/-- The first key has spent its token when it is called again. It is then evicted, and so has
another token at its last call. -/
theorem independent_of_crowd :
    Limiter.Runs twoKeys ((Limiter.ofLimits twoKeys).moments crowd)
        ((Limiter.ofLimits twoKeys).run crowd) ∧
      course "10.0.0.1" ((Limiter.ofLimits twoKeys).moments crowd) =
        [.own (.allow "10.0.0.1" 0), .own (.allow "10.0.0.1" 2), .evicted,
          .own (.allow "10.0.0.1" 5)] ∧
      answersTo "10.0.0.1" ((Limiter.ofLimits twoKeys).moments crowd) = [true, false, true] ∧
      Independent twoKeys ((Limiter.ofLimits twoKeys).moments crowd) "10.0.0.1" :=
  ⟨Limiter.runs_moments twoKeys crowd, by decide +kernel, by decide +kernel,
    independent_of_runs (Limiter.runs_moments twoKeys crowd) "10.0.0.1"⟩

end Upkeep.RateLimit
