/-
# What an operation does to a store

The operations on a store all write the same two places, the slot and the history, and several
of them look as if they could spoil them: a job that refuses to end moves to the history as it
is, and a job that does not run would lose the slot to the next one. Neither happens as long as
the slot holds running jobs only. On such a store every operation has one of four effects, which
are said once by `Effect`; all laws about runs of operations are derived from them.
-/

import Mathlib.Data.List.Nodup
import Mathlib.Data.List.Perm.Basic
import Upkeep.Store

namespace Upkeep

namespace Job

/-- A job that has begun and is not over: it has neither an end nor a reason of failure. -/
structure UnderWay (job : Job) : Prop where
  running : job.status = .running
  no_end : job.ended? = none
  no_reason : job.reason? = none

/-- A job that is over: it ended well or badly, not before it started, and only a job that
ended badly has a reason of failure. -/
structure Over (job : Job) : Prop where
  terminal : job.status = .completed ∨ job.status = .failed
  start_le_end : ∃ ended, job.ended? = some ended ∧ job.started ≤ ended
  reason_iff : job.reason?.isSome = true ↔ job.status = .failed

/-- The same job after its end. -/
structure EndsAs (job ended : Job) : Prop where
  same_id : ended.id = job.id
  same_action : ended.action = job.action
  same_start : ended.started = job.started
  ended_over : ended.Over

/-- A job that is over for this reason: well without one, badly with one. -/
def EndedWith (job : Job) : Option String → Prop
  | none => job.status = .completed
  | some reason => job.status = .failed ∧ job.reason? = some reason

theorem isTerminal_of_endedWith {job : Job} {failure : Option String}
    (hended : job.EndedWith failure) : job.isTerminal = true := by
  cases failure with
  | none =>
      rw [isTerminal, show job.status = .completed from hended]
      rfl
  | some reason =>
      rw [isTerminal, hended.1]
      rfl

/-- The end of a job is never before its start, wherever the clock stands. -/
theorem started_le_later (started now : Timestamp) : started ≤ started.later now := by
  unfold Timestamp.later
  split
  · assumption
  · exact Int.le_refl started.nanos

/-- A job that begins to run is under way. -/
theorem underWay_running (job : Job) : UnderWay { job with state := .running } :=
  ⟨rfl, rfl, rfl⟩

/-- Only a pending job begins to run, and beginning changes nothing but its state. -/
theorem run_eq_ok_iff {job running : Job} :
    job.run = .ok running ↔ job.status = .pending ∧ running = { job with state := .running } := by
  unfold run
  split
  · next hpending => simp [hpending, eq_comm]
  · next hpending => simp [hpending]

/-- A running job that is told to end well does so. -/
theorem complete_of_running {job : Job} (hrunning : job.status = .running) (now : Timestamp) :
    ∃ ended, job.complete now = .ok ended ∧ job.EndsAs ended ∧ ended.status = .completed := by
  refine ⟨_, if_pos hrunning, ⟨rfl, rfl, rfl, .inl rfl, ⟨_, rfl, started_le_later _ _⟩, ?_⟩, rfl⟩
  simp [reason?, status]

/-- A running job that is told to end badly does so, for the reason that it is told. -/
theorem fail_of_running {job : Job} (hrunning : job.status = .running) (reason : String)
    (now : Timestamp) :
    ∃ ended, job.fail reason now = .ok ended ∧ job.EndsAs ended ∧ ended.status = .failed ∧
      ended.reason? = some reason := by
  refine ⟨_, if_pos hrunning,
    ⟨rfl, rfl, rfl, .inr rfl, ⟨_, rfl, started_le_later _ _⟩, ?_⟩, rfl, rfl⟩
  simp [reason?, status]

end Job

namespace Store

/-- What a store can be asked to do. -/
inductive Operation where
  | tryStart (job : Job)
  | completeCurrent
  | failCurrent (reason : String)
  | completeJob (id : JobId)
  | failJob (id : JobId) (reason : String)
  | sweep (maxAge : Nat)

/-- The operation that ends a job for a reason, if there is one. -/
def Operation.conclude (id : JobId) : Option String → Operation
  | none => .completeJob id
  | some reason => .failJob id reason

/-- An operation with what the clock shows when it is carried out. -/
abbrev Deed := Operation × Timestamp

/-- The store after an operation. -/
def apply (store : Store) (operation : Operation) (now : Timestamp) : Store :=
  match operation with
  | .tryStart job => (store.tryStart job).2
  | .completeCurrent => (store.completeCurrent now).2
  | .failCurrent reason => (store.failCurrent reason now).2
  | .completeJob id => (store.completeJob id now).2
  | .failJob id reason => (store.failJob id reason now).2
  | .sweep maxAge => store.sweep maxAge now

/-- The job that an operation admits. -/
def admits (store : Store) : Operation → List Job
  | .tryStart job => if (store.tryStart job).1 then [job] else []
  | _ => []

/-- The job that an operation ends. -/
def ends? (store : Store) (operation : Operation) (now : Timestamp) : Option Job :=
  match operation with
  | .completeCurrent => (store.completeCurrent now).1
  | .failCurrent reason => (store.failCurrent reason now).1
  | .completeJob id => (store.completeJob id now).1
  | .failJob id reason => (store.failJob id reason now).1
  | .tryStart _ | .sweep _ => none

/-- The oldest jobs of a list, as many as are not kept. -/
def overflow (limit : Nat) (jobs : List Job) : List Job :=
  jobs.take (jobs.length - limit)

/-- The jobs that an operation drops from the history: those that a sweep finds too old, and
those that the job that ends pushes out. -/
def drops (store : Store) (operation : Operation) (now : Timestamp) : List Job :=
  match operation with
  | .sweep maxAge => store.history.filter fun job => !decide (cutoff maxAge now ≤ job.started)
  | operation =>
    match store.ends? operation now with
    | some job => overflow store.maxHistory (store.history ++ [job])
    | none => []

/-- A store whose slot holds a running job, if any, and whose history holds a bounded number of
jobs, all of them over. -/
structure Sound (store : Store) : Prop where
  current_underWay : ∀ job ∈ store.current, job.UnderWay
  history_bounded : store.history.length ≤ store.maxHistory
  history_over : ∀ job ∈ store.history, job.Over

/-- At most the job in the slot is not over. -/
theorem Sound.length_unfinished_le {store : Store} (hsound : store.Sound) :
    ((store.current.toList ++ store.history).filter fun job => !job.isTerminal).length ≤ 1 := by
  have hhistory : store.history.filter (fun job => !job.isTerminal) = [] := by
    rw [List.filter_eq_nil_iff]
    intro job hjob
    obtain hcompleted | hfailed := (hsound.history_over job hjob).terminal
    · simp [Job.isTerminal, hcompleted, JobStatus.isTerminal]
    · simp [Job.isTerminal, hfailed, JobStatus.isTerminal]
  rw [List.filter_append, hhistory, List.append_nil]
  apply Nat.le_trans (List.length_filter_le ..)
  cases store.current <;> simp

/-- What an operation can do to a store: the jobs it admits, those it drops, and the store
after it. -/
inductive Effect (store : Store) : List Job → List Job → Store → Prop
  | nothing : Effect store [] [] store
  | admission (job : Job) (hfree : store.current = none) (hpending : job.status = .pending) :
      Effect store [job] [] { store with current := some { job with state := .running } }
  | ending (job ended : Job) (hcurrent : store.current = some job) (hends : job.EndsAs ended) :
      Effect store [] (overflow store.maxHistory (store.history ++ [ended]))
        ⟨store.maxHistory, none, keepNewest store.maxHistory (store.history ++ [ended])⟩
  | sweep (maxAge : Nat) (now : Timestamp) :
      Effect store [] (store.drops (.sweep maxAge) now) (store.sweep maxAge now)

/-- Nothing is lost between the jobs that are kept and those that are not. -/
theorem overflow_append_keepNewest (limit : Nat) (jobs : List Job) :
    overflow limit jobs ++ keepNewest limit jobs = jobs :=
  List.take_append_drop ..

theorem length_keepNewest_le (limit : Nat) (jobs : List Job) :
    (keepNewest limit jobs).length ≤ limit := by
  rw [keepNewest, List.length_drop]
  omega

/-- The slot is given to a job exactly if it is free and the job is pending. -/
theorem Sound.tryStart_iff {store : Store} (hsound : store.Sound) (job : Job) :
    (store.tryStart job).1 = true ↔ store.current = none ∧ job.status = .pending := by
  unfold tryStart
  cases hcurrent : store.current with
  | some holder =>
      have hrunning := (hsound.current_underWay holder hcurrent).running
      simp [hrunning]
  | none =>
      simp only [Option.any_none, Bool.false_eq_true, if_false, true_and]
      cases hrun : job.run with
      | ok running => simpa using (Job.run_eq_ok_iff.1 hrun).1
      | error refused =>
          refine ⟨nofun, ?_⟩
          intro hpending
          rw [Job.run_eq_ok_iff.2 ⟨hpending, rfl⟩] at hrun
          cases hrun

/-- A free slot is given to a pending job. -/
theorem tryStart_of_free {store : Store} (hfree : store.current = none) {job : Job}
    (hpending : job.status = .pending) :
    store.tryStart job = (true, { store with current := some { job with state := .running } }) := by
  simp [tryStart, hfree, Job.run, hpending]

/-- A job that is not given the slot leaves the store as it is. -/
theorem tryStart_of_refused {store : Store} {job : Job}
    (hrefused : (store.tryStart job).1 = false) : (store.tryStart job).2 = store := by
  revert hrefused
  unfold tryStart
  split
  · exact fun _ => rfl
  · split
    · exact fun _ => rfl
    · exact nofun

/-- What ending the running job comes to: either nothing, because the slot is free or another
job holds it, or the job that holds it moves to the history as it ended. -/
theorem Sound.finish_cases {store : Store} (hsound : store.Sound) (expected : Option JobId)
    {ending : Job → Except InvalidTransition Job} {ends : Job → Job → Prop}
    (hending : ∀ job : Job, job.status = .running → ∃ ended, ending job = .ok ended ∧
      ends job ended) :
    store.finish expected ending = (none, store) ∨
      ∃ job ended, store.current = some job ∧ ends job ended ∧
        store.finish expected ending = (some ended,
          ⟨store.maxHistory, none, keepNewest store.maxHistory (store.history ++ [ended])⟩) := by
  cases hcurrent : store.current with
  | none => left; simp [finish, hcurrent]
  | some job =>
      by_cases hexpected : expected.all fun id => job.id = id
      · obtain ⟨ended, hok, hends⟩ :=
          hending job (hsound.current_underWay job hcurrent).running
        exact .inr ⟨job, ended, rfl, hends, by simp [finish, hcurrent, hexpected, hok]⟩
      · left; simp [finish, hcurrent, hexpected]

/-- The job that holds the slot ends for the reason that it is told, if it is told one. -/
theorem Sound.conclude {store : Store} (hsound : store.Sound) {job : Job}
    (hjob : store.current = some job) (failure : Option String) (now : Timestamp) :
    ∃ ended, job.EndsAs ended ∧ ended.EndedWith failure ∧
      store.apply (.conclude job.id failure) now =
        ⟨store.maxHistory, none, keepNewest store.maxHistory (store.history ++ [ended])⟩ ∧
      store.drops (.conclude job.id failure) now =
        overflow store.maxHistory (store.history ++ [ended]) := by
  have hrunning := (hsound.current_underWay job hjob).running
  cases failure with
  | none =>
      obtain ⟨ended, hok, hends, hstatus⟩ := Job.complete_of_running hrunning now
      refine ⟨ended, hends, hstatus, ?_, ?_⟩ <;>
        simp [Operation.conclude, apply, drops, ends?, completeJob, finish, hjob, hok]
  | some reason =>
      obtain ⟨ended, hok, hends, hstatus, hreason⟩ := Job.fail_of_running hrunning reason now
      refine ⟨ended, hends, ⟨hstatus, hreason⟩, ?_, ?_⟩ <;>
        simp [Operation.conclude, apply, drops, ends?, failJob, finish, hjob, hok]

/-- The effect of ending the running job, from what `finish` says. -/
private theorem Sound.effect_of_finish {store : Store} (hsound : store.Sound)
    {operation : Operation} {now : Timestamp} {expected : Option JobId}
    {ending : Job → Except InvalidTransition Job}
    (hending : ∀ job : Job, job.status = .running → ∃ ended, ending job = .ok ended ∧
      job.EndsAs ended)
    (hadmits : store.admits operation = [])
    (hdrops : store.drops operation now =
      match (store.finish expected ending).1 with
      | some job => overflow store.maxHistory (store.history ++ [job])
      | none => [])
    (happly : store.apply operation now = (store.finish expected ending).2) :
    Effect store (store.admits operation) (store.drops operation now)
      (store.apply operation now) := by
  rw [hadmits, hdrops, happly]
  obtain hnothing | ⟨job, ended, hcurrent, hends, hfinish⟩ :=
    hsound.finish_cases expected hending
  · rw [hnothing]
    exact .nothing
  · rw [hfinish]
    exact .ending job ended hcurrent hends

/-- Every operation on a sound store has one of the four effects. -/
theorem Sound.effect {store : Store} (hsound : store.Sound) (operation : Operation)
    (now : Timestamp) :
    Effect store (store.admits operation) (store.drops operation now)
      (store.apply operation now) := by
  have hcomplete : ∀ job : Job, job.status = .running →
      ∃ ended, job.complete now = .ok ended ∧ job.EndsAs ended := by
    intro job hrunning
    obtain ⟨ended, hok, hends, -⟩ := Job.complete_of_running hrunning now
    exact ⟨ended, hok, hends⟩
  have hfail : ∀ (reason : String) (job : Job), job.status = .running →
      ∃ ended, job.fail reason now = .ok ended ∧ job.EndsAs ended := by
    intro reason job hrunning
    obtain ⟨ended, hok, hends, -⟩ := Job.fail_of_running hrunning reason now
    exact ⟨ended, hok, hends⟩
  cases operation with
  | tryStart job =>
      by_cases hstarts : (store.tryStart job).1 = true
      · obtain ⟨hfree, hpending⟩ := (hsound.tryStart_iff job).1 hstarts
        have hrun := Job.run_eq_ok_iff.2 ⟨hpending, rfl⟩
        simpa [admits, drops, ends?, apply, tryStart, hfree, hrun] using
          Effect.admission job hfree hpending
      · have hsame := tryStart_of_refused (Bool.eq_false_iff.2 hstarts)
        simpa [admits, drops, ends?, apply, hstarts, hsame] using Effect.nothing
  | completeCurrent => exact hsound.effect_of_finish hcomplete rfl rfl rfl
  | failCurrent reason => exact hsound.effect_of_finish (hfail reason) rfl rfl rfl
  | completeJob id => exact hsound.effect_of_finish hcomplete rfl rfl rfl
  | failJob id reason => exact hsound.effect_of_finish (hfail reason) rfl rfl rfl
  | sweep maxAge => exact .sweep maxAge now

/-- What an operation leaves of a sound store is sound. -/
theorem Effect.sound {store after : Store} {admitted dropped : List Job}
    (heffect : Effect store admitted dropped after) (hsound : store.Sound) : after.Sound := by
  cases heffect with
  | nothing => exact hsound
  | admission job hfree hpending =>
      refine ⟨?_, hsound.history_bounded, hsound.history_over⟩
      intro holder hholder
      rw [Option.mem_some_iff] at hholder
      exact hholder ▸ job.underWay_running
  | ending job ended hcurrent hends =>
      refine ⟨by simp, length_keepNewest_le .., ?_⟩
      intro old hold
      have hmem : old ∈ store.history ++ [ended] := List.mem_of_mem_drop hold
      rw [List.mem_append, List.mem_singleton] at hmem
      rcases hmem with hkept | rfl
      · exact hsound.history_over old hkept
      · exact hends.ended_over
  | sweep maxAge now =>
      exact ⟨hsound.current_underWay,
        Nat.le_trans (List.length_filter_le ..) hsound.history_bounded,
        fun old hold => hsound.history_over old (List.mem_of_mem_filter hold)⟩

/-- No operation changes how many jobs are kept. -/
theorem Effect.maxHistory_eq {store after : Store} {admitted dropped : List Job}
    (heffect : Effect store admitted dropped after) : after.maxHistory = store.maxHistory := by
  cases heffect <;> rfl

/-- The identifiers of the jobs that a store holds. -/
def ids (store : Store) : List JobId :=
  (store.current.toList ++ store.history).map Job.id

/-- An operation moves jobs but makes none up: the jobs held after it and those it drops are
those held before it and those it admits. -/
theorem Effect.perm {store after : Store} {admitted dropped : List Job}
    (heffect : Effect store admitted dropped after) :
    (after.ids ++ dropped.map Job.id).Perm (store.ids ++ admitted.map Job.id) := by
  cases heffect with
  | nothing => exact .refl _
  | admission job hfree hpending =>
      simp only [ids, hfree, Option.toList_some, Option.toList_none, List.map_append,
        List.map_cons, List.map_nil, List.nil_append, List.append_nil]
      exact List.perm_append_comm
  | ending job ended hcurrent hends =>
      have hlist := overflow_append_keepNewest store.maxHistory (store.history ++ [ended])
      have hids := congrArg (List.map Job.id) hlist
      simp only [List.map_append, List.map_cons, List.map_nil, hends.same_id] at hids
      simp only [ids, hcurrent, Option.toList_some, Option.toList_none, List.map_append,
        List.map_cons, List.map_nil, List.nil_append, List.append_nil]
      refine (List.perm_append_comm.trans (.of_eq hids)).trans ?_
      exact List.perm_append_comm
  | sweep maxAge now =>
      have hsplit := List.filter_append_perm
        (fun job : Job => decide (cutoff maxAge now ≤ job.started)) store.history
      simpa [ids, drops, Store.sweep] using (hsplit.map Job.id).append_left _

/-- A job of the history stays there or is dropped. -/
theorem Effect.mem_history {store after : Store} {admitted dropped : List Job}
    (heffect : Effect store admitted dropped after) {job : Job} (hjob : job ∈ store.history) :
    job ∈ after.history ∨ job ∈ dropped := by
  cases heffect with
  | nothing => exact .inl hjob
  | admission => exact .inl hjob
  | ending other ended hcurrent hends =>
      have hmem : job ∈ store.history ++ [ended] := List.mem_append_left _ hjob
      rw [← overflow_append_keepNewest store.maxHistory (store.history ++ [ended]),
        List.mem_append] at hmem
      exact hmem.symm
  | sweep maxAge now =>
      by_cases hyoung : cutoff maxAge now ≤ job.started
      · exact .inl (List.mem_filter.2 ⟨hjob, by simpa using hyoung⟩)
      · exact .inr (List.mem_filter.2 ⟨hjob, by simpa using hyoung⟩)

/-- The job in the slot stays there, or it ends and goes over to the history, from which it may be
dropped at once. -/
theorem Effect.of_current {store after : Store} {admitted dropped : List Job}
    (heffect : Effect store admitted dropped after) {job : Job}
    (hcurrent : store.current = some job) :
    after.current = some job ∨
      ∃ ended, job.EndsAs ended ∧ (ended ∈ after.history ∨ ended ∈ dropped) := by
  cases heffect with
  | nothing | sweep => exact .inl hcurrent
  | admission other hfree hpending =>
      rw [hfree] at hcurrent
      cases hcurrent
  | ending other ended hholds hends =>
      obtain rfl : other = job := Option.some.inj (hholds.symm.trans hcurrent)
      have hmem : ended ∈ store.history ++ [ended] :=
        List.mem_append_right _ (List.mem_singleton_self _)
      rw [← overflow_append_keepNewest store.maxHistory (store.history ++ [ended]),
        List.mem_append] at hmem
      exact .inr ⟨ended, hends, hmem.symm⟩

end Store

end Upkeep
