/-
# The history is in order of finishing

The history is a queue that two things take jobs from: a job that is one too many pushes the
oldest one out, and a sweep removes jobs by when they started, so it may remove any of them. What
both leave is always a part of the jobs that have ended, in the order in which they did; nothing
is ever put anywhere but at the end.

So one fact about the whole run is enough for the order of the history: if the clock never steps
back and no job is offered before it starts, a job ends at the moment that the clock shows, and
the jobs that end later have the later ends.
-/

import Mathlib.Data.List.Induction
import Upkeep.Proofs.Store.Ledger

namespace Upkeep

namespace Job

/-- One job ended no later than another. -/
def NoLater (job other : Job) : Prop :=
  ∃ first last, job.ended? = some first ∧ other.ended? = some last ∧ first ≤ last

/-- A job comes to an end as it is told at a moment, which counts only if the job had started
by then. -/
structure EndsAt (job ended : Job) (now : Timestamp) : Prop where
  ends : job.EndsAs ended
  ended_eq : ended.ended? = some (job.started.later now)

theorem endsAt_of_complete {job : Job} (hrunning : job.status = .running) (now : Timestamp) :
    ∃ ended, job.complete now = .ok ended ∧ job.EndsAt ended now := by
  obtain ⟨ended, hok, hends, -⟩ := complete_of_running hrunning now
  refine ⟨ended, hok, hends, ?_⟩
  rw [complete, if_pos hrunning] at hok
  cases hok
  rfl

theorem endsAt_of_fail {job : Job} (hrunning : job.status = .running) (reason : String)
    (now : Timestamp) : ∃ ended, job.fail reason now = .ok ended ∧ job.EndsAt ended now := by
  obtain ⟨ended, hok, hends, -⟩ := fail_of_running hrunning reason now
  refine ⟨ended, hok, hends, ?_⟩
  rw [fail, if_pos hrunning] at hok
  cases hok
  rfl

/-- A job that has started by now ends now. -/
theorem EndsAt.ended_eq_now {job ended : Job} {now : Timestamp} (hends : job.EndsAt ended now)
    (hstarted : job.started ≤ now) : ended.ended? = some now := by
  rw [hends.ended_eq, Timestamp.later, if_pos hstarted]

end Job

namespace Store

/-! ## One operation -/

/-- The job that is offered for the slot. -/
def Operation.offered? : Operation → Option Job
  | .tryStart job => some job
  | _ => none

/-- What an operation does to a store at a moment: the job that it ends, the jobs that it drops,
and the store after it. -/
inductive Move (store : Store) (now : Timestamp) :
    Operation → Option Job → List Job → Store → Prop
  | rest (operation : Operation) : Move store now operation none [] store
  | start (job : Job) :
      Move store now (.tryStart job) none []
        { store with current := some { job with state := .running } }
  | finish (operation : Operation) (job ended : Job) (hcurrent : store.current = some job)
      (hends : job.EndsAt ended now) :
      Move store now operation (some ended)
        (overflow store.maxHistory (store.history ++ [ended]))
        ⟨store.maxHistory, none, keepNewest store.maxHistory (store.history ++ [ended])⟩
  | sweep (maxAge : Nat) :
      Move store now (.sweep maxAge) none (store.drops (.sweep maxAge) now)
        (store.sweep maxAge now)

/-- What ending the running job does to a store, from what `finish` says. -/
private theorem Sound.move_of_finish {store : Store} (hsound : store.Sound)
    {operation : Operation} {now : Timestamp} {expected : Option JobId}
    {ending : Job → Except InvalidTransition Job}
    (hending : ∀ job : Job, job.status = .running → ∃ ended, ending job = .ok ended ∧
      job.EndsAt ended now)
    (hends : store.ends? operation now = (store.finish expected ending).1)
    (hdrops : store.drops operation now =
      match (store.finish expected ending).1 with
      | some job => overflow store.maxHistory (store.history ++ [job])
      | none => [])
    (happly : store.apply operation now = (store.finish expected ending).2) :
    Move store now operation (store.ends? operation now) (store.drops operation now)
      (store.apply operation now) := by
  rw [hends, hdrops, happly]
  obtain hnothing | ⟨job, ended, hcurrent, hended, hfinish⟩ :=
    hsound.finish_cases expected hending
  · rw [hnothing]
    exact .rest operation
  · rw [hfinish]
    exact .finish operation job ended hcurrent hended

/-- Every operation on a sound store is one of the four moves. -/
theorem Sound.move {store : Store} (hsound : store.Sound) (operation : Operation)
    (now : Timestamp) :
    Move store now operation (store.ends? operation now) (store.drops operation now)
      (store.apply operation now) := by
  have hcomplete : ∀ job : Job, job.status = .running →
      ∃ ended, job.complete now = .ok ended ∧ job.EndsAt ended now :=
    fun _ hrunning => Job.endsAt_of_complete hrunning now
  have hfail : ∀ (reason : String) (job : Job), job.status = .running →
      ∃ ended, job.fail reason now = .ok ended ∧ job.EndsAt ended now :=
    fun reason _ hrunning => Job.endsAt_of_fail hrunning reason now
  cases operation with
  | tryStart job =>
      by_cases hstarts : (store.tryStart job).1 = true
      · obtain ⟨hfree, hpending⟩ := (hsound.tryStart_iff job).1 hstarts
        simpa [ends?, drops, apply, tryStart_of_free hfree hpending] using
          (Move.start job : Move store now _ _ _ _)
      · have hsame := tryStart_of_refused (Bool.eq_false_iff.2 hstarts)
        simpa [ends?, drops, apply, hsame] using Move.rest (.tryStart job)
  | completeCurrent => exact hsound.move_of_finish hcomplete rfl rfl rfl
  | failCurrent reason => exact hsound.move_of_finish (hfail reason) rfl rfl rfl
  | completeJob id => exact hsound.move_of_finish hcomplete rfl rfl rfl
  | failJob id reason => exact hsound.move_of_finish (hfail reason) rfl rfl rfl
  | sweep maxAge => exact .sweep maxAge

/-- A history takes one job more than it keeps only if it was full, and then the oldest job
leaves it. -/
theorem overflow_cases {limit : Nat} {jobs : List Job} (hbounded : jobs.length ≤ limit)
    (ended : Job) :
    overflow limit (jobs ++ [ended]) = [] ∨
      ∃ oldest, overflow limit (jobs ++ [ended]) = [oldest] ∧
        jobs ++ [ended] = oldest :: keepNewest limit (jobs ++ [ended]) ∧
        (keepNewest limit (jobs ++ [ended])).length = limit := by
  have hlength : (jobs ++ [ended]).length = jobs.length + 1 := by simp
  rcases Nat.lt_or_eq_of_le hbounded with hroom | hfull
  · left
    rw [overflow, hlength, show jobs.length + 1 - limit = 0 by omega, List.take_zero]
  · right
    have hone : (jobs ++ [ended]).length - limit = 1 := by omega
    obtain ⟨oldest, rest, hcons⟩ := List.exists_cons_of_length_pos
      (show 0 < (jobs ++ [ended]).length by omega)
    rw [hcons, List.length_cons] at hone hlength
    refine ⟨oldest, ?_, ?_, ?_⟩
    · rw [hcons, overflow, List.length_cons, hone]
      rfl
    · rw [hcons, keepNewest, List.length_cons, hone]
      rfl
    · rw [hcons, keepNewest, List.length_cons, hone, List.drop_one, List.tail_cons]
      omega

section Move

variable {store after : Store} {operation : Operation} {now : Timestamp} {ended? : Option Job}
  {dropped : List Job}

/-- What stays in the history is a part of it, with the job that ends behind it. -/
theorem Move.sublist (hmove : Move store now operation ended? dropped after) :
    after.history.Sublist (store.history ++ ended?.toList) := by
  cases hmove with
  | rest | start => simp
  | finish job ended hcurrent hends => exact List.drop_sublist ..
  | sweep maxAge => exact List.filter_sublist.trans (List.sublist_append_left ..)

/-- What stays in the history and what is dropped are together what was there before and the job
that ends. -/
theorem Move.perm (hmove : Move store now operation ended? dropped after) :
    (after.history ++ dropped).Perm (store.history ++ ended?.toList) := by
  cases hmove with
  | rest | start => simp
  | finish job ended hcurrent hends =>
      exact List.perm_append_comm.trans (.of_eq (overflow_append_keepNewest ..))
  | sweep maxAge =>
      rw [Option.toList_none, List.append_nil]
      exact List.filter_append_perm
        (fun job : Job => decide (cutoff maxAge now ≤ job.started)) store.history

/-- A sweep found a job too old. -/
def Swept (deed : Deed) (job : Job) : Prop :=
  ∃ maxAge, deed.1 = .sweep maxAge ∧ job.started < cutoff maxAge deed.2

/-- The history is full of jobs that ended after a job. -/
def Ousted (store : Store) (finished : List Job) (job : Job) : Prop :=
  ∃ earlier later, finished = earlier ++ job :: later ∧ store.history.Sublist later ∧
    store.history.length = store.maxHistory

/-- A job is dropped because a sweep finds it too old, or because the history is full of jobs
that ended later. -/
theorem Move.swept_or_ousted (hmove : Move store now operation ended? dropped after)
    (hbounded : store.history.length ≤ store.maxHistory) {finished : List Job}
    (hkept : store.history.Sublist finished) {job : Job} (hjob : job ∈ dropped) :
    Swept (operation, now) job ∨ after.Ousted (finished ++ ended?.toList) job := by
  cases hmove with
  | rest | start => cases hjob
  | sweep maxAge =>
      left
      refine ⟨maxAge, rfl, ?_⟩
      have hold := List.of_mem_filter hjob
      rw [Bool.not_eq_true', decide_eq_false_iff_not] at hold
      exact Int.not_le.1 hold
  | finish _ holder ended hcurrent hends =>
      right
      rcases overflow_cases hbounded ended with hnone | ⟨oldest, hone, hcons, hfull⟩
      · rw [hnone] at hjob
        cases hjob
      · rw [hone, List.mem_singleton] at hjob
        subst hjob
        have hqueue : (job :: keepNewest store.maxHistory (store.history ++ [ended])).Sublist
            (finished ++ [ended]) := hcons ▸ hkept.append_right [ended]
        obtain ⟨upTo, later, hsplit, hmem, hlater⟩ := List.cons_sublist_iff.1 hqueue
        obtain ⟨earlier, between, rfl⟩ := List.append_of_mem hmem
        refine ⟨earlier, between ++ later, by simpa using hsplit, ?_, hfull⟩
        exact hlater.trans (List.sublist_append_right ..)

end Move

end Store
namespace Ledger

/-! ## The jobs that ended -/

/-- The jobs that end in a run of operations, in the order in which they do. -/
def ending (ledger : Ledger) : List Store.Deed → List Job
  | [] => []
  | deed :: deeds =>
      (ledger.store.ends? deed.1 deed.2).toList ++ (ledger.enter deed).ending deeds

/-- The jobs that ended in a run of operations on a store that was empty at first. -/
def finished (maxHistory : Nat) (deeds : List Store.Deed) : List Job :=
  (blank maxHistory).ending deeds

theorem ending_append (ledger : Ledger) (deeds further : List Store.Deed) :
    ledger.ending (deeds ++ further) =
      ledger.ending deeds ++ (deeds.foldl enter ledger).ending further := by
  induction deeds generalizing ledger with
  | nil => rfl
  | cons deed deeds ih => simp [ending, ih]

theorem run_concat (maxHistory : Nat) (deeds : List Store.Deed) (deed : Store.Deed) :
    run maxHistory (deeds ++ [deed]) = (run maxHistory deeds).enter deed :=
  run_append ..

theorem finished_concat (maxHistory : Nat) (deeds : List Store.Deed) (deed : Store.Deed) :
    finished maxHistory (deeds ++ [deed]) = finished maxHistory deeds ++
      ((run maxHistory deeds).store.ends? deed.1 deed.2).toList := by
  rw [finished, ending_append, ending, ending, List.append_nil]
  rfl

/-- The last operation of a run, as a move on the store that the others left. -/
theorem move_run (maxHistory : Nat) (deeds : List Store.Deed) (deed : Store.Deed) :
    Store.Move (run maxHistory deeds).store deed.2 deed.1
      ((run maxHistory deeds).store.ends? deed.1 deed.2)
      ((run maxHistory deeds).store.drops deed.1 deed.2)
      (run maxHistory (deeds ++ [deed])).store := by
  rw [run_concat]
  exact (balanced_run maxHistory deeds).sound.move deed.1 deed.2

/-- The history is a part of the jobs that ended, in the order in which they did. -/
theorem history_sublist_finished (maxHistory : Nat) (deeds : List Store.Deed) :
    (run maxHistory deeds).store.history.Sublist (finished maxHistory deeds) := by
  induction deeds using List.reverseRecOn with
  | nil => exact List.Sublist.refl _
  | append_singleton deeds deed ih =>
      rw [finished_concat]
      exact (move_run maxHistory deeds deed).sublist.trans (ih.append_right _)

/-- Every job that ended is in the history or was dropped, and no other job is. -/
theorem history_append_dropped_perm (maxHistory : Nat) (deeds : List Store.Deed) :
    ((run maxHistory deeds).store.history ++ (run maxHistory deeds).dropped).Perm
      (finished maxHistory deeds) := by
  induction deeds using List.reverseRecOn with
  | nil => exact .refl _
  | append_singleton deeds deed ih =>
      have hmoved := (move_run maxHistory deeds deed).perm
      have hdropped : (run maxHistory (deeds ++ [deed])).dropped =
          (run maxHistory deeds).dropped ++
            (run maxHistory deeds).store.drops deed.1 deed.2 := by
        rw [run_concat]
        rfl
      rw [finished_concat, hdropped]
      apply List.perm_iff_count.2
      intro job
      have hbefore := ih.count_eq job
      have hmoved := hmoved.count_eq job
      simp only [List.count_append] at hbefore hmoved ⊢
      omega

/-- A job that was dropped was dropped by one of the operations. -/
theorem exists_of_mem_dropped {maxHistory : Nat} {deeds : List Store.Deed} {job : Job}
    (hdropped : job ∈ (run maxHistory deeds).dropped) :
    ∃ before deed after, deeds = before ++ deed :: after ∧
      job ∈ (run maxHistory before).store.drops deed.1 deed.2 := by
  induction deeds using List.reverseRecOn with
  | nil => cases hdropped
  | append_singleton deeds deed ih =>
      rw [run_concat] at hdropped
      rcases List.mem_append.1 hdropped with hearlier | hnow
      · obtain ⟨before, dropping, after, rfl, hdrops⟩ := ih hearlier
        exact ⟨before, dropping, after ++ [deed], by simp, hdrops⟩
      · exact ⟨deeds, deed, [], rfl, hnow⟩

/-- A job that an operation of a run drops was too old for a sweep, or the history is full
afterwards of jobs that ended later. -/
theorem swept_or_ousted_of_mem_drops {maxHistory : Nat} {deeds : List Store.Deed}
    {deed : Store.Deed} {job : Job}
    (hdrops : job ∈ (run maxHistory deeds).store.drops deed.1 deed.2) :
    Store.Swept deed job ∨
      (run maxHistory (deeds ++ [deed])).store.Ousted (finished maxHistory (deeds ++ [deed]))
        job := by
  rw [finished_concat]
  exact (move_run maxHistory deeds deed).swept_or_ousted
    (balanced_run maxHistory deeds).sound.history_bounded
    (history_sublist_finished maxHistory deeds) hdrops

/-! ## The order of the ends -/

/-- A run of operations whose clock never steps back, and in which no job is offered before it
starts. -/
structure Timely (deeds : List Store.Deed) : Prop where
  forward : deeds.Pairwise fun earlier later => earlier.2 ≤ later.2
  started : ∀ deed ∈ deeds, ∀ job ∈ deed.1.offered?, job.started ≤ deed.2

theorem Timely.of_append {before after : List Store.Deed} (htimely : Timely (before ++ after)) :
    Timely before :=
  ⟨(List.pairwise_append.1 htimely.forward).1, fun deed hdeed =>
    htimely.started deed (List.mem_append_left _ hdeed)⟩

/-- Everything so far happened by a moment: the job in the slot had started, and the jobs that
ended did so one after the other. -/
structure Dated (store : Store) (finished : List Job) (now : Timestamp) : Prop where
  started : ∀ job ∈ store.current, job.started ≤ now
  ended : ∀ job ∈ finished, ∃ ended, job.ended? = some ended ∧ ended ≤ now
  sorted : finished.Pairwise Job.NoLater

theorem Dated.mono {store : Store} {finished : List Job} {now later : Timestamp}
    (hdated : Dated store finished now) (hle : now ≤ later) : Dated store finished later := by
  refine ⟨fun job hjob => Int.le_trans (hdated.started job hjob) hle, ?_, hdated.sorted⟩
  intro job hjob
  obtain ⟨ended, hended, hby⟩ := hdated.ended job hjob
  exact ⟨ended, hended, Int.le_trans hby hle⟩

/-- A job that ends now ends after all others, because the clock shows the latest moment and the
job has started. -/
theorem Dated.move {store after : Store} {finished dropped : List Job} {now : Timestamp}
    {operation : Store.Operation} {ended? : Option Job} (hdated : Dated store finished now)
    (hmove : store.Move now operation ended? dropped after)
    (hoffered : ∀ job ∈ operation.offered?, job.started ≤ now) :
    Dated after (finished ++ ended?.toList) now := by
  cases hmove with
  | rest | sweep => simpa using ⟨hdated.started, hdated.ended, hdated.sorted⟩
  | start job =>
      refine ⟨?_, by simpa using hdated.ended, by simpa using hdated.sorted⟩
      intro holder hholder
      rw [Option.mem_some_iff] at hholder
      subst hholder
      exact hoffered job rfl
  | finish _ job ended hcurrent hends =>
      have hnow : ended.ended? = some now := hends.ended_eq_now (hdated.started job hcurrent)
      refine ⟨by simp, ?_, List.pairwise_append.2 ⟨hdated.sorted, by simp, ?_⟩⟩
      · intro other hother
        rcases List.mem_append.1 hother with hearlier | hlast
        · exact hdated.ended other hearlier
        · obtain rfl : other = ended := by simpa using hlast
          exact ⟨now, hnow, Int.le_refl _⟩
      · intro earlier hearlier last hlast
        obtain rfl : last = ended := by simpa using hlast
        obtain ⟨first, hfirst, hby⟩ := hdated.ended earlier hearlier
        exact ⟨first, now, hfirst, hnow, hby⟩

/-- A run that is timely is dated by every moment that none of its operations comes after. -/
theorem dated_run {maxHistory : Nat} {deeds : List Store.Deed} (htimely : Timely deeds)
    {now : Timestamp} (hnow : ∀ deed ∈ deeds, deed.2 ≤ now) :
    Dated (run maxHistory deeds).store (finished maxHistory deeds) now := by
  induction deeds using List.reverseRecOn generalizing now with
  | nil => exact ⟨by simp [run, blank], by simp [finished, ending], List.Pairwise.nil⟩
  | append_singleton deeds deed ih =>
      obtain ⟨-, -, hlast⟩ := List.pairwise_append.1 htimely.forward
      have hbefore := ih htimely.of_append
        (fun earlier hearlier => hlast earlier hearlier deed (List.mem_singleton_self _))
      rw [finished_concat]
      apply Dated.mono _ (hnow deed (by simp))
      exact hbefore.move (move_run maxHistory deeds deed) (htimely.started deed (by simp))

/-- The jobs that end in a timely run have their ends in order. -/
theorem Timely.pairwise_finished {deeds : List Store.Deed} (htimely : Timely deeds)
    (maxHistory : Nat) : (finished maxHistory deeds).Pairwise Job.NoLater := by
  rcases List.eq_nil_or_concat' deeds with rfl | ⟨before, last, rfl⟩
  · exact List.Pairwise.nil
  · have hlatest : ∀ deed ∈ before ++ [last], deed.2 ≤ last.2 := by
      intro deed hdeed
      rcases List.mem_append.1 hdeed with hearlier | hlast
      · exact (List.pairwise_append.1 htimely.forward).2.2 deed hearlier last (by simp)
      · rw [List.mem_singleton.1 hlast]
        exact Int.le_refl _
    exact (dated_run htimely hlatest).sorted

/-- In a list of jobs that are over and in the order of their ends, none ended later than the
last. -/
theorem noLater_getLast? {jobs : List Job} (hover : ∀ job ∈ jobs, job.Over)
    (hsorted : jobs.Pairwise Job.NoLater) {last : Job} (hlast : jobs.getLast? = some last) :
    ∀ job ∈ jobs, job.NoLater last := by
  obtain ⟨earlier, rfl⟩ := List.getLast?_eq_some_iff.1 hlast
  intro job hjob
  rcases List.mem_append.1 hjob with hearlier | hself
  · exact (List.pairwise_append.1 hsorted).2.2 job hearlier last (by simp)
  · rw [List.mem_singleton.1 hself]
    obtain ⟨ended, hended, -⟩ := (hover last (by simp)).start_le_end
    exact ⟨ended, ended, hended, hended, Int.le_refl _⟩

/-! ## The history after a run -/

/-- The history after a run of operations is in order of finishing. -/
structure Chronological (maxHistory : Nat) (deeds : List Store.Deed) : Prop where
  all_over : ∀ job ∈ (run maxHistory deeds).store.history, job.Over
  sorted : (run maxHistory deeds).store.history.Pairwise Job.NoLater
  /-- The history is the jobs that ended, in the order in which they did, less some. -/
  sublist : (run maxHistory deeds).store.history.Sublist (finished maxHistory deeds)
  /-- Those that it lacks were dropped. -/
  perm : ((run maxHistory deeds).store.history ++ (run maxHistory deeds).dropped).Perm
    (finished maxHistory deeds)
  dropped : ∀ job ∈ (run maxHistory deeds).dropped, ∃ before deed after,
    deeds = before ++ deed :: after ∧
      job ∈ (run maxHistory before).store.drops deed.1 deed.2 ∧
      (Store.Swept deed job ∨
        (run maxHistory (before ++ [deed])).store.Ousted (finished maxHistory (before ++ [deed]))
          job)
  no_latest_iff : (run maxHistory deeds).store.latest? = none ↔
    (run maxHistory deeds).store.history = []
  latest : ∀ last, (run maxHistory deeds).store.latest? = some last →
    last ∈ (run maxHistory deeds).store.history ∧
      ∀ job ∈ (run maxHistory deeds).store.history, job.NoLater last
  found_iff : (run maxHistory deeds).admitted.Nodup → ∀ id job,
    (run maxHistory deeds).store.find? id = some job ↔
      job.id = id ∧ ((run maxHistory deeds).store.current = some job ∨
        job ∈ (run maxHistory deeds).store.history)

/-- If the clock never steps back and no job is offered before it starts, the history is in order
of finishing at every moment of a run: it is sorted by the ends, a finished job is missing from it
only if a sweep found it too old or if, when it was dropped, the history was full of jobs that
ended later, and the job that ended last is the last of it. With distinct identifiers exactly
the job in the slot and those in the history are found. -/
theorem chronological_of_run (maxHistory : Nat) {deeds : List Store.Deed}
    (htimely : Timely deeds) {before after : List Store.Deed}
    (hdeeds : deeds = before ++ after) : Chronological maxHistory before := by
  subst hdeeds
  have hbalanced := balanced_run maxHistory before
  have hsublist := history_sublist_finished maxHistory before
  have hsorted := (htimely.of_append.pairwise_finished maxHistory).sublist hsublist
  refine ⟨hbalanced.sound.history_over, hsorted, hsublist,
    history_append_dropped_perm maxHistory before, ?_, List.getLast?_eq_none_iff, ?_, ?_⟩
  · intro job hdropped
    obtain ⟨earlier, deed, later, hsplit, hdrops⟩ := exists_of_mem_dropped hdropped
    exact ⟨earlier, deed, later, hsplit, hdrops, swept_or_ousted_of_mem_drops hdrops⟩
  · intro last hlast
    exact ⟨List.mem_of_getLast? hlast,
      noLater_getLast? hbalanced.sound.history_over hsorted hlast⟩
  · intro hdistinct id job
    have hnodup := (List.nodup_append.1 (hbalanced.nodup hdistinct)).1
    rw [Store.find?_eq_some_iff hnodup, List.mem_append, Option.mem_toList, and_comm]

/-- A job offered at a moment, so many nanoseconds after its start. -/
private def offer (name : String) (now age : Int) : Store.Deed :=
  (.tryStart ⟨⟨name⟩, .reboot, Timestamp.clamp (now - age), .pending⟩, Timestamp.clamp now)

/-- Four jobs and a sweep between them, with room for two. The second job has started long
before it is offered, so the sweep removes it from behind the first; the fourth pushes the first
out. -/
def fourJobs : List Store.Deed :=
  [offer "first" 50 0, (.completeCurrent, Timestamp.clamp 60),
    offer "second" 70 70, (.failCurrent "late", Timestamp.clamp 80),
    (.sweep 50, Timestamp.clamp 90),
    offer "third" 100 0, (.completeCurrent, Timestamp.clamp 110),
    offer "fourth" 120 0, (.completeCurrent, Timestamp.clamp 130)]

theorem chronological_of_fourJobs :
    Timely fourJobs ∧
      (run 2 fourJobs).store.history.map Job.id = [⟨"third"⟩, ⟨"fourth"⟩] ∧
      (run 2 fourJobs).dropped.map Job.id = [⟨"second"⟩, ⟨"first"⟩] ∧
      Chronological 2 fourJobs := by
  have htimely : Timely fourJobs := ⟨by decide +kernel, by decide +kernel⟩
  exact ⟨htimely, by decide +kernel, by decide +kernel,
    chronological_of_run 2 htimely (List.append_nil _).symm⟩

end Ledger

end Upkeep
