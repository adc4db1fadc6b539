/-
# Runs of a limiter

A limiter is asked whether to let a key pass, and it is swept, each at some instant. A run is any
number of such calls, one after the other, and the calls of a run are also its history: what a
limiter should know of a key is said in terms of them alone. Here is what one call does to the
entries of a limiter, and what holds of the entries after every run: they are of different keys,
and of keys that were called.
-/

import Mathlib.Data.Finset.Card
import Mathlib.Data.List.Nodup
import Upkeep.RateLimit.Limiter

namespace Upkeep.RateLimit

/-! ## Calls -/

/-- What a limiter can be asked for, and when. -/
inductive Call where
  /-- Whether a key may pass. -/
  | allow (key : String) (instant : Int)
  | sweep (instant : Int)
deriving DecidableEq, Repr

namespace Call

/-- The instant of a call. -/
def instant : Call → Int
  | allow _ instant => instant
  | sweep instant => instant

/-- The key that a call is about. -/
def key? : Call → Option String
  | allow key _ => some key
  | sweep _ => none

/-- The instant of a call for a key. -/
def askedAt? : Call → Option Int
  | allow _ instant => some instant
  | sweep _ => none

/-- The instant of a sweep. -/
def sweptAt? : Call → Option Int
  | allow _ _ => none
  | sweep instant => some instant

/-- The keys that are called, in order. -/
def keys (calls : List Call) : List String :=
  calls.filterMap key?

/-- The instants of the calls for keys, in order. -/
def askings (calls : List Call) : List Int :=
  calls.filterMap askedAt?

/-- The instants of the sweeps, in order. -/
def sweeps (calls : List Call) : List Int :=
  calls.filterMap sweptAt?

theorem mem_keys {key : String} {calls : List Call} :
    key ∈ keys calls ↔ ∃ instant, allow key instant ∈ calls := by
  rw [keys, List.mem_filterMap]
  constructor
  · rintro ⟨call, hcall, hkey⟩
    cases call with
    | allow other instant => exact ⟨instant, Option.some.inj hkey ▸ hcall⟩
    | sweep instant => cases hkey
  · rintro ⟨instant, hcall⟩
    exact ⟨_, hcall, rfl⟩

theorem keys_subset {calls more : List Call} (hcalls : calls ⊆ more) : keys calls ⊆ keys more :=
  List.filterMap_subset _ hcalls

theorem sweeps_subset {calls more : List Call} (hcalls : calls ⊆ more) :
    sweeps calls ⊆ sweeps more :=
  List.filterMap_subset _ hcalls

@[simp] theorem keys_append (calls more : List Call) :
    keys (calls ++ more) = keys calls ++ keys more :=
  List.filterMap_append

end Call

namespace Limiter

variable {α : Type}

/-! ## What a call does -/

section Entries

variable {entries : List (Tracked α)} {entry : Tracked α} {key other : String}

theorem mem_without : entry ∈ without key entries ↔ entry ∈ entries ∧ entry.key ≠ key := by
  simp [without]

theorem without_sublist (key : String) (entries : List (Tracked α)) :
    (without key entries).Sublist entries :=
  List.filter_sublist

/-- An entry with another key can still be found. -/
theorem find?_without (hother : other ≠ key) :
    (without key entries).find? (·.key = other) = entries.find? (·.key = other) := by
  rw [without, List.find?_filter]
  congr 1
  funext entry
  by_cases hsame : entry.key = other
  · simp [hsame, hother]
  · simp [hsame]

/-- The last entry is the only one that can have its key. -/
theorem find?_concat_without (entries : List (Tracked α)) (key : String) (bucket : Bucket α)
    (now : Int) :
    (without key entries ++ [(⟨key, bucket, now⟩ : Tracked α)]).find? (·.key = key) =
      some ⟨key, bucket, now⟩ := by
  have hnone : (without key entries).find? (·.key = key) = none := by
    rw [List.find?_eq_none]
    intro entry hentry
    simpa using (mem_without.1 hentry).2
  rw [List.find?_append, hnone]
  simp

theorem mem_of_stalest (hstalest : stalest entries = some entry) : entry ∈ entries := by
  induction entries generalizing entry with
  | nil => cases hstalest
  | cons first rest ih =>
      rw [stalest] at hstalest
      split at hstalest
      · rw [Option.some.inj hstalest]
        exact List.mem_cons_self
      next found hrest =>
        split at hstalest
        · rw [← Option.some.inj hstalest]
          exact List.mem_cons_of_mem _ (ih hrest)
        · rw [Option.some.inj hstalest]
          exact List.mem_cons_self

/-- Room is made by dropping an entry or none. -/
theorem roomFor_sublist (limiter : Limiter α) (key : String) :
    (limiter.roomFor key).Sublist limiter.tracked := by
  unfold roomFor
  split
  · exact List.Sublist.refl _
  split
  · exact List.Sublist.refl _
  · exact without_sublist ..

end Entries

theorem contains_iff {limiter : Limiter α} {key : String} :
    limiter.contains key = true ↔ key ∈ limiter.tracked.map (·.key) := by
  simp [contains, find?, List.find?_isSome]

/-- One call. -/
def perform [Arithmetic α] (limiter : Limiter α) : Call → Limiter α
  | .allow key instant => (limiter.allow key instant).2
  | .sweep instant => limiter.sweep instant

/-- Any number of calls, one after the other. -/
def run [Arithmetic α] (limiter : Limiter α) (calls : List Call) : Limiter α :=
  calls.foldl perform limiter

/-- What is answered to a call. A sweep is not told anything that concerns a key. -/
def answer? [Arithmetic α] (limiter : Limiter α) : Call → Option Bool
  | .allow key instant => some (limiter.allow key instant).1
  | .sweep _ => none

/-- What is answered to calls for keys, one after the other. -/
def answers [Arithmetic α] (limiter : Limiter α) : List Call → List Bool
  | [] => []
  | call :: calls => (limiter.answer? call).toList ++ (limiter.perform call).answers calls

section Run

variable [Arithmetic α] {limiter : Limiter α}

theorem run_append (limiter : Limiter α) (calls more : List Call) :
    limiter.run (calls ++ more) = (limiter.run calls).run more :=
  List.foldl_append

theorem run_concat (limiter : Limiter α) (calls : List Call) (call : Call) :
    limiter.run (calls ++ [call]) = (limiter.run calls).perform call :=
  run_append ..

theorem answers_concat (limiter : Limiter α) (calls : List Call) (call : Call) :
    limiter.answers (calls ++ [call]) =
      limiter.answers calls ++ ((limiter.run calls).answer? call).toList := by
  induction calls generalizing limiter with
  | nil => simp [answers, run]
  | cons first calls ih =>
      rw [List.cons_append, answers, answers, ih, List.append_assoc]
      rfl

/-- The settings stay what they are. -/
@[simp] theorem limits_perform (limiter : Limiter α) (call : Call) :
    (limiter.perform call).limits = limiter.limits := by
  cases call <;> rfl

@[simp] theorem limits_run (limiter : Limiter α) (calls : List Call) :
    (limiter.run calls).limits = limiter.limits := by
  induction calls generalizing limiter with
  | nil => rfl
  | cons call calls ih => exact (ih _).trans (limits_perform limiter call)

/-- The entries after a call for a key: those that there was room for, and last that of the key. -/
theorem exists_tracked_allow (limiter : Limiter α) (key : String) (instant : Int) :
    ∃ bucket, (limiter.allow key instant).2.tracked =
      without key (limiter.roomFor key) ++ [⟨key, bucket, instant⟩] :=
  ⟨_, rfl⟩

/-- Of another key, a call leaves what there was room for. -/
theorem find?_allow_other {key other : String} (hother : key ≠ other) (now : Int) :
    (limiter.allow other now).2.find? key = (limiter.roomFor other).find? (·.key = key) := by
  obtain ⟨bucket, htracked⟩ := limiter.exists_tracked_allow other now
  rw [find?, htracked, List.find?_append, find?_without hother]
  simp [hother.symm]

/-- No two entries are of one key. -/
abbrev Distinct (limiter : Limiter α) : Prop :=
  (limiter.tracked.map (·.key)).Nodup

omit [Arithmetic α] in
/-- What is known of a key is its one entry. -/
theorem Distinct.find?_eq_some_iff (hdistinct : limiter.Distinct) {key : String}
    {entry : Tracked α} :
    limiter.find? key = some entry ↔ entry ∈ limiter.tracked ∧ entry.key = key := by
  constructor
  · intro hfind
    exact ⟨List.mem_of_find?_eq_some hfind, by simpa using List.find?_some hfind⟩
  · rintro ⟨hentry, rfl⟩
    cases hfind : limiter.find? entry.key with
    | none => simpa using List.find?_eq_none.1 hfind entry hentry
    | some found =>
        have hkey : found.key = entry.key := by simpa using List.find?_some hfind
        rw [List.inj_on_of_nodup_map hdistinct (List.mem_of_find?_eq_some hfind) hentry hkey]

omit [Arithmetic α] in
/-- A sweep leaves the entries that are fresh. -/
theorem Distinct.find?_sweep (hdistinct : limiter.Distinct) (key : String) (now : Int) :
    (limiter.sweep now).find? key = (limiter.find? key).filter (limiter.isFresh now) := by
  have hkept : (limiter.sweep now).Distinct := hdistinct.sublist (List.filter_sublist.map _)
  apply Option.ext
  intro entry
  rw [Option.filter_eq_some_iff, hkept.find?_eq_some_iff, hdistinct.find?_eq_some_iff, sweep,
    List.mem_filter]
  tauto

omit [Arithmetic α] in
/-- So it drops the keys whose entries are not fresh. -/
theorem Distinct.contains_sweep (hdistinct : limiter.Distinct) (now : Int) {entry : Tracked α}
    (hentry : entry ∈ limiter.tracked) :
    (limiter.sweep now).contains entry.key = limiter.isFresh now entry := by
  have hfind : limiter.find? entry.key = some entry :=
    hdistinct.find?_eq_some_iff.2 ⟨hentry, rfl⟩
  rw [contains, hdistinct.find?_sweep, hfind, Option.filter_some]
  cases limiter.isFresh now entry <;> rfl

theorem Distinct.perform (hdistinct : limiter.Distinct) (call : Call) :
    (limiter.perform call).Distinct := by
  cases call with
  | sweep instant => exact hdistinct.sublist (List.filter_sublist.map _)
  | allow key instant =>
      obtain ⟨bucket, htracked⟩ := limiter.exists_tracked_allow key instant
      have hothers : ((without key (limiter.roomFor key)).map (·.key)).Nodup :=
        hdistinct.sublist (((without_sublist ..).trans (limiter.roomFor_sublist key)).map _)
      show ((limiter.allow key instant).2.tracked.map (·.key)).Nodup
      rw [htracked, List.map_append, List.nodup_append]
      refine ⟨hothers, List.nodup_singleton _, ?_⟩
      intro other hother _ hkey
      obtain ⟨entry, hentry, rfl⟩ := List.mem_map.1 hother
      rw [List.mem_singleton.1 hkey]
      exact (mem_without.1 hentry).2

theorem Distinct.run (hdistinct : limiter.Distinct) (calls : List Call) :
    (limiter.run calls).Distinct := by
  induction calls generalizing limiter with
  | nil => exact hdistinct
  | cons call calls ih => exact ih (hdistinct.perform call)

/-- Only the keys that were called are tracked. -/
theorem key_mem_of_mem_run {limits : Limits α} {calls : List Call} {entry : Tracked α}
    (hentry : entry ∈ ((ofLimits limits).run calls).tracked) : entry.key ∈ Call.keys calls := by
  induction calls using List.reverseRecOn generalizing entry with
  | nil => cases hentry
  | append_singleton calls call ih =>
      rw [run_concat] at hentry
      rw [Call.keys_append, List.mem_append]
      cases call with
      | sweep instant => exact .inl (ih (List.mem_of_mem_filter hentry))
      | allow key instant =>
          obtain ⟨bucket, htracked⟩ :=
            ((ofLimits limits).run calls).exists_tracked_allow key instant
          rw [Limiter.perform, htracked, List.mem_append] at hentry
          rcases hentry with hother | hself
          · have hroom := (mem_without.1 hother).1
            exact .inl (ih ((roomFor_sublist ..).subset hroom))
          · rw [List.mem_singleton.1 hself]
            exact .inr List.mem_cons_self

/-- Nobody has to make room for a key that makes no key too many. -/
theorem roomFor_run_of_few {limits : Limits α} {calls : List Call} {key : String}
    (hfew : (insert key (Call.keys calls).toFinset).card ≤ max limits.maxKeys 1) :
    ((ofLimits limits).run calls).roomFor key = ((ofLimits limits).run calls).tracked := by
  rw [roomFor]
  apply if_pos
  by_cases hcontains : ((ofLimits limits).run calls).contains key = true
  · exact .inl hcontains
  · right
    have hfresh : (ofLimits limits).Distinct := List.nodup_nil
    have hdistinct := hfresh.run calls
    have hnew : key ∉ (((ofLimits limits).run calls).tracked.map (·.key)).toFinset := by
      rwa [List.mem_toFinset, ← contains_iff]
    have hsubset : insert key (((ofLimits limits).run calls).tracked.map (·.key)).toFinset ⊆
        insert key (Call.keys calls).toFinset := by
      apply Finset.insert_subset_insert
      intro other hother
      obtain ⟨entry, hentry, rfl⟩ := List.mem_map.1 (List.mem_toFinset.1 hother)
      exact List.mem_toFinset.2 (key_mem_of_mem_run hentry)
    have hcard := (Finset.card_le_card hsubset).trans hfew
    rw [Finset.card_insert_of_notMem hnew, List.toFinset_card_of_nodup hdistinct,
      List.length_map] at hcard
    rw [limits_run]
    exact hcard

end Run

end Limiter

end Upkeep.RateLimit
