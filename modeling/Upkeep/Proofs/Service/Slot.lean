/-
# The slot

The slot is taken when a request is answered and freed by a worker, or at once if the pool does
not take the job. Nothing in the store would notice if one of these paths forgot about it: the
service would refuse every later action for good. It never comes to that, for the slot is taken
exactly as long as the task of its job is in the pool.

So a service that is asked for nothing but actions has at most one task in its pool, and the
queue of the pool always has room for the next one. Only a pool that is closed refuses it.
-/

import Upkeep.Proofs.Service.Recount

namespace Upkeep.Service

/-- The jobs whose tasks are in the queue or have been started, once for each task. -/
def jobTasks (crew : Crew) : List JobId :=
  (queuedErrands crew.queue).map Errand.id ++ (holds crew.running).map Hold.id

/-- The tasks of jobs in the pool are that of the errand which the chronicle says it has. -/
theorem Chronicle.Tells.jobTasks_eq {c : Chronicle} {surroundings : Executor.Surroundings}
    {crew : Crew} (htells : c.Tells surroundings crew) :
    jobTasks crew = (crew.world.store.current.map Job.id).toList := by
  rw [jobTasks, htells.queue, htells.running, htells.store, htells.slot]
  cases c.phase <;> rfl

/-- A queue of jobs alone is empty as soon as there are no errands in it. -/
theorem queue_eq_nil {queue : List (Pool.Queued Assignment)}
    (hjobs : ∀ queued ∈ queue, queued.task ≠ .occupation) (hnone : queuedErrands queue = []) :
    queue = [] := by
  rw [List.eq_nil_iff_forall_not_mem]
  intro queued hqueued
  have herrand := List.filterMap_eq_nil_iff.1 hnone queued hqueued
  cases htask : queued.task with
  | occupation => exact hjobs queued hqueued htask
  | job id request =>
      rw [htask] at herrand
      cases herrand

/-- Nothing but jobs is in the queue, and no task was ever refused for want of room. -/
structure Unhindered (settings : Pool.Settings) (crew : Crew) : Prop where
  same_settings : crew.settings = settings
  jobs_only : ∀ queued ∈ crew.queue, queued.task ≠ .occupation
  never_full : ∀ ticket, ¬ crew.HasRefused ticket .queueFull

namespace Unhindered

variable {settings : Pool.Settings} {crew crew' : Crew}

/-- What adds no task and refuses none leaves the pool unhindered. -/
theorem keep (hunhindered : Unhindered settings crew) (entries : List (Pool.Entry Report))
    (hsettings : crew'.settings = crew.settings)
    (hqueue : ∀ queued ∈ crew'.queue, queued ∈ crew.queue)
    (hlog : crew'.log = crew.log ++ entries)
    (hother : ∀ entry ∈ entries, ∀ ticket, entry.event ≠ .refused ticket .queueFull) :
    Unhindered settings crew' where
  same_settings := hsettings.trans hunhindered.same_settings
  jobs_only queued hqueued := hunhindered.jobs_only queued (hqueue queued hqueued)
  never_full ticket hrefused := hunhindered.never_full ticket
    (hrefused.of_log_eq hlog fun entry hentry => hother entry hentry ticket)

theorem of_turned (hunhindered : Unhindered settings crew)
    {queue : List (Pool.Queued Assignment)} {others : List (Pool.Running Progress)}
    {ticket : Nat} {turn : WorkTurn}
    (hturned : Pool.Machine.Turned crew queue others ticket turn crew')
    (hqueue : ∀ queued ∈ queue, queued ∈ crew.queue) : Unhindered settings crew' where
  same_settings := hturned.settings.trans hunhindered.same_settings
  jobs_only queued hqueued := hunhindered.jobs_only queued (hqueue queued (hturned.queue ▸ hqueued))
  never_full ticket hrefused := hunhindered.never_full ticket (hturned.refused _ _ hrefused)

/-- Where nobody waits for room, nothing that workers do hinders the pool. -/
theorem worked (hunhindered : Unhindered settings crew)
    (hnobody : crew.admitted = [] ∧ crew.waiting = [])
    (hwork : Pool.Machine.Work work crew crew') : Unhindered settings crew' := by
  cases hwork with
  | launch hqueue hidle =>
      obtain ⟨hturned, -⟩ := Pool.Machine.turned_launch work _ _ hnobody.2
      apply hunhindered.of_turned hturned
      intro queued hqueued
      rw [hqueue]
      exact List.mem_cons_of_mem _ hqueued
  | crash _ _ hcall => cases hcall
  | resume htask hcue =>
      exact hunhindered.of_turned (Pool.Machine.turned_resume work crew _ _)
        fun _ hqueued => hqueued
  | ring =>
      exact ⟨hunhindered.same_settings, hunhindered.jobs_only, hunhindered.never_full⟩
  | enterAll =>
      rw [Pool.Machine.enterAll_eq, hnobody.1]
      refine hunhindered.keep [] rfl ?_ rfl nofun
      intro queued hqueued
      rwa [List.map_nil, List.append_nil] at hqueued
  | callerTurn hcaller =>
      rw [hnobody.1, hnobody.2] at hcaller
      cases hcaller

/-- Where nobody waits for room, no change in the pool hinders it. -/
theorem change (hunhindered : Unhindered settings crew)
    (hnobody : crew.admitted = [] ∧ crew.waiting = [])
    (hchange : Pool.Machine.Change work crew crew') : Unhindered settings crew' := by
  cases hchange with
  | step hstep =>
      cases hstep with
      | work hwork => exact hunhindered.worked hnobody hwork
      | finishClosing | giveUp =>
          exact hunhindered.keep _ rfl (fun _ hqueued => hqueued) rfl (by simp)
  | clock | await =>
      exact ⟨hunhindered.same_settings, hunhindered.jobs_only, hunhindered.never_full⟩
  | shut =>
      rw [Pool.Machine.shut_eq, hnobody.1, hnobody.2]
      exact hunhindered.keep _ rfl (fun _ hqueued => hqueued) rfl (by simp)
  | closed => exact hunhindered.keep _ rfl (fun _ hqueued => hqueued) rfl (by simp)

theorem move (hunhindered : Unhindered settings crew)
    (hnobody : crew.admitted = [] ∧ crew.waiting = []) (hmove : Move crew crew') :
    Unhindered settings crew' := by
  cases hmove with
  | change hchange => exact hunhindered.change hnobody hchange
  | clock | sweep =>
      exact ⟨hunhindered.same_settings, hunhindered.jobs_only, hunhindered.never_full⟩

theorem moves (hunhindered : Unhindered settings crew) {c : Chronicle}
    {surroundings : Executor.Surroundings} (htells : c.Tells surroundings crew)
    (hmoves : Moves crew crew') : Unhindered settings crew' := by
  induction hmoves with
  | refl => exact hunhindered
  | tail hbefore hmove ih =>
      obtain ⟨between, htells', -⟩ := htells.moves hbefore
      exact ih.move htells'.nobody_waits hmove

/-- As long as the slot is free, an unhindered pool has room. -/
theorem hasRoom (hunhindered : Unhindered settings crew) (hcapacity : 0 < settings.capacity)
    {c : Chronicle} {surroundings : Executor.Surroundings}
    (htells : c.Tells surroundings crew) (hfree : crew.world.store.current = none) :
    crew.hasRoom = true := by
  have hqueue : crew.queue = [] := by
    apply queue_eq_nil hunhindered.jobs_only
    rw [htells.queue, htells.idle_of_free hfree]
    rfl
  rw [Pool.Machine.hasRoom, hqueue, htells.nobody_waits.1, hunhindered.same_settings]
  exact decide_eq_true hcapacity

/-- Whatever the answer to a request is, it leaves the pool unhindered, and an answer that the
service is at its limit means that the pool takes no tasks. -/
theorem reply {state after : State} (hunhindered : Unhindered settings state.crew)
    (hcapacity : 0 < settings.capacity) {c : Chronicle}
    {surroundings : Executor.Surroundings} (htells : c.Tells surroundings state.crew)
    {message : Http.Request} {response : Http.Response}
    (hreply : Reply state message response after) :
    Unhindered settings after.crew ∧
      (response.status = .serviceUnavailable → state.crew.takesTasks = false) := by
  cases hreply with
  | plain limiter hstatus hrefused => exact ⟨hunhindered, fun h => absurd h hstatus⟩
  | accepted limiter judged limit hasks hrequest haction hfree htakes hroom =>
      refine ⟨⟨hunhindered.same_settings, ?_, ?_⟩, ?_⟩
      · intro queued hqueued
        rcases List.mem_append.1 hqueued with hold | hnew
        · exact hunhindered.jobs_only queued hold
        · rw [List.mem_singleton.1 hnew]
          nofun
      · intro ticket hrefused
        exact hunhindered.never_full ticket (hrefused.of_log_eq rfl (by simp))
      · intro hstatus
        rw [status_withHeader, status_acceptance] at hstatus
        cases hstatus
  | rejected limiter judged error hfree herror hstatus =>
      have hroom := hunhindered.hasRoom hcapacity htells hfree
      rcases herror with ⟨hrefuses, rfl⟩ | ⟨-, hfull, -⟩
      · refine ⟨hunhindered.keep [⟨state.crew.now, .refused state.crew.nextTicket .shutdown⟩] rfl
          (fun _ hqueued => hqueued) rfl (by simp), fun _ => hrefuses⟩
      · rw [hroom] at hfull
        cases hfull

/-- A run without occupations leaves the pool unhindered. -/
theorem run {state : State} (hunhindered : Unhindered settings state.crew)
    (hcapacity : 0 < settings.capacity) {c : Chronicle}
    {start : Start} (hrecounts : c.Recounts start state)
    {stimuli : List Stimulus} (hactions : .occupy ∉ stimuli) :
    Unhindered settings (state.run stimuli).crew := by
  induction stimuli generalizing state c with
  | nil => exact hunhindered
  | cons stimulus stimuli ih =>
      rw [List.mem_cons, not_or] at hactions
      obtain ⟨met, hmet, -⟩ := hrecounts.meet stimulus
      obtain ⟨next, hnext, -⟩ := hrecounts.respond stimulus
      have hmeets : Unhindered settings (state.meet stimulus).crew := by
        cases stimulus with
        | message message =>
            exact (hunhindered.reply hcapacity hrecounts.tells (reply_answer state message)).1
        | occupy => exact absurd rfl hactions.1
        | elapse | release | closePool | setClock => exact hunhindered
      have hgoes := State.goesOn_respond stimulus hmet.tells.tidy
      exact ih (hmeets.moves hmet.tells hgoes.moves) hnext hactions.2

end Unhindered

theorem unhindered_start (start : Start) :
    Unhindered (.of start.workers start.backlog start.taskTimeout) start.state.crew where
  same_settings := rfl
  jobs_only := nofun
  never_full := by
    rintro ticket ⟨entry, hentry, -⟩
    cases hentry

/-- The slot never leaks: after every run it is taken by a job exactly if there is one task of
that job in the pool, in the queue or started, and there is no task of any other job. So it is
free as soon as nothing is in the pool. If the pool is asked for nothing but actions, it never
refuses one for want of room, and a request is told that the service is at its limit only if the
pool is closed. -/
theorem slot_taken_iff_task_of_run (start : Start) (stimuli : List Stimulus) :
    let state := start.state.run stimuli
    (∀ id, (∃ job, state.store.current = some job ∧ job.id = id) ↔
      (jobTasks state.crew).count id = 1) ∧
    (∀ id ∈ jobTasks state.crew, ∃ job, state.store.current = some job ∧ job.id = id) ∧
    (state.crew.queue = [] ∧ state.crew.running = [] → state.store.current = none) ∧
    (.occupy ∉ stimuli →
      (∀ ticket, ¬ state.crew.HasRefused ticket .queueFull) ∧
      ∀ message, (state.handle message).1.status = .serviceUnavailable →
        state.crew.isOpen = false) := by
  intro state
  obtain ⟨c, hrecounts, -⟩ := exists_chronicle start stimuli
  have htells := hrecounts.tells
  have htasks : jobTasks state.crew = (state.store.current.map Job.id).toList := htells.jobTasks_eq
  refine ⟨?_, ?_, ?_, ?_⟩
  · intro id
    rw [htasks]
    cases state.store.current with
    | none => simp
    | some job => simp [List.count_singleton]
  · intro id hid
    rw [htasks, Option.mem_toList, Option.map_eq_some_iff] at hid
    exact hid
  · intro hempty
    rw [jobTasks, hempty.1, hempty.2] at htasks
    cases hcurrent : state.store.current with
    | none => rfl
    | some job =>
        rw [hcurrent] at htasks
        cases htasks
  · intro hactions
    have hcapacity : 0 < max start.backlog 1 :=
      Nat.lt_of_lt_of_le Nat.one_pos (Nat.le_max_right ..)
    have hunhindered :=
      (unhindered_start start).run hcapacity (Chronicle.recounts_start start) hactions
    refine ⟨hunhindered.never_full, ?_⟩
    intro message hstatus
    have hrefuses :=
      (hunhindered.reply hcapacity htells (reply_answer state message)).2 hstatus
    have hmanned : state.crew.isDeserted = false := isDeserted_run start stimuli
    rwa [Pool.Machine.takesTasks, hmanned, Bool.not_false, Bool.and_true] at hrefuses

end Upkeep.Service
