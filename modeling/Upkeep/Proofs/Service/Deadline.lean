/-
# Jobs end in time

An accepted job never waits: the slot was free, so no other job is in the pool, and if only jobs
are, a worker is idle and starts its task at the instant of acceptance. From then on the task has
until its deadline. If it is stuck over a command that heeds its context, it goes on when the
context is cancelled, at the deadline at the latest, and that turn ends the job.

So the pool has a clock of its own, the instant `since` at which its job was accepted. As long as
the job is in the queue the instant is still the same, and every task that was started has the
deadline that follows from it.
-/

import Upkeep.Proofs.Service.Accepted
import Upkeep.Proofs.Service.Rest
import Upkeep.Proofs.Service.Slot

namespace Upkeep.Service

/-! ## Heedful turns -/

/-- The host plays no deaf command after this turn, and if the worker waits after it, then over a
command and no longer than until its context is cancelled. -/
structure Heedful (turn : WorkTurn) : Prop where
  script : ∀ ending, .deaf ending ∉ turn.world.script
  waits : ∀ wait ∈ turn.waits, wait.1 ≠ .occupied ∧ wait.2.heedsCancel = true

theorem Play.heedsCancel_of_course {play : Play} (hheedful : ∀ ending, play ≠ .deaf ending)
    {command : Host.Command} {cancelled : Bool} {ending : Ending} {pause : Pool.Pause}
    (hcourse : play.course command cancelled = .stuck ending pause) :
    pause.heedsCancel = true := by
  cases play with
  | ends =>
      simp only [course] at hcourse
      split at hcourse <;> cases hcourse
  | unstartable => cases hcourse
  | deaf ending => exact absurd rfl (hheedful ending)
  | stuck =>
      simp only [course] at hcourse
      split at hcourse
      · cases hcourse
      · cases hcourse
        rfl

section Turns

variable {world : World} (hscript : ∀ ending, .deaf ending ∉ world.script)

include hscript

theorem heedful_conclude (id : JobId) (outcome : Outcome) (said : List Report) :
    Heedful (conclude world id outcome said) := by
  refine ⟨?_, nofun⟩
  rw [conclude, record_eq]
  exact hscript

theorem heedful_runCommands (id : JobId) (context : Pool.Context)
    (commands : List Host.Command) (said : List Report) :
    Heedful (runCommands id context commands world said) := by
  induction commands generalizing world said with
  | nil => exact heedful_conclude hscript id .succeeded said
  | cons command further ih =>
      have hrest : ∀ ending, .deaf ending ∉ world.script.tail :=
        fun ending hmem => hscript ending (List.mem_of_mem_tail hmem)
      have hplay : ∀ ending, world.script.head?.getD .succeeds ≠ .deaf ending := by
        intro ending hdeaf
        cases hnext : world.script.head? with
        | none =>
            rw [hnext] at hdeaf
            cases hdeaf
        | some play =>
            rw [hnext] at hdeaf
            exact hscript ending (hdeaf ▸ List.mem_of_head? hnext)
      simp only [runCommands]
      split
      · exact ih hrest _
      · exact heedful_conclude hrest ..
      next ending pause hcourse =>
        refine ⟨hrest, ?_⟩
        intro wait hwait
        cases hwait
        exact ⟨by simp, Play.heedsCancel_of_course hplay hcourse⟩

/-- The first turn of a job is heedful. -/
theorem heedful_begin (id : JobId) (request : Request) (context : Pool.Context) :
    Heedful (begin (.job id request) context world) := by
  simp only [begin]
  split
  · refine ⟨?_, by simp⟩
    rw [record_eq]
    exact hscript
  · split
    · exact heedful_conclude hscript ..
    · exact heedful_runCommands hscript ..

/-- So is every later turn. -/
theorem heedful_goOn {progress : Progress} (hprogress : progress ≠ .occupied) (cue : Pool.Cue)
    (context : Pool.Context) : Heedful (goOn progress cue context world) := by
  cases progress with
  | occupied => exact absurd rfl hprogress
  | command id stuck ending further =>
      cases cue with
      | cancel => exact heedful_conclude hscript ..
      | wake | release =>
          simp only [goOn]
          split
          · exact heedful_runCommands hscript ..
          · exact heedful_conclude hscript ..

end Turns

/-! ## Pools in time -/

/-- A worker is stuck over a command, but not beyond an instant. -/
structure Timed (latest : Nat) (task : Pool.Running Progress) : Prop where
  on_command : task.state ≠ .occupied
  heeds_cancel : task.pause.heedsCancel = true
  deadline_le : task.deadline ≤ latest

theorem Heedful.timed {turn : WorkTurn} (hturn : Heedful turn) {ticket deadline place latest : Nat}
    {rung : Bool} (hdeadline : deadline ≤ latest) {task : Pool.Running Progress}
    (htask : task ∈ Pool.Machine.paused ticket deadline rung place turn) : Timed latest task := by
  obtain ⟨-, hsame, -, hwaits⟩ := Pool.Machine.mem_paused htask
  obtain ⟨hcommand, hheeds⟩ := hturn.waits _ hwaits
  exact ⟨hcommand, hheeds, hsame ▸ hdeadline⟩

/-- There are only jobs in the pool, none was accepted later than at an instant, and those that
have been started have no later deadline than follows from it. -/
structure InTime (settings : Pool.Settings) (since : Nat) (crew : Crew) : Prop where
  same_settings : crew.settings = settings
  none_lost : crew.lost = []
  nobody_waits : crew.admitted = [] ∧ crew.waiting = []
  jobs_queued : ∀ queued ∈ crew.queue, queued.task ≠ .occupation
  heedful : ∀ ending, .deaf ending ∉ crew.world.script
  fresh : crew.queue ≠ [] → crew.now = since
  timed : ∀ task ∈ crew.running, Timed (since + settings.taskTimeout) task

namespace InTime

variable {settings : Pool.Settings} {since : Nat} {crew crew' : Crew}

/-- A task that is started keeps to the deadline. -/
theorem launch (hin : InTime settings since crew) {first : Pool.Queued Assignment}
    {rest : List (Pool.Queued Assignment)} (hqueue : crew.queue = first :: rest) :
    InTime settings since ((crew.vacate rest).launch work first) := by
  -- Whatever is still in the queue was accepted at this instant, so its deadline counts from it.
  have hnow : crew.now = since := hin.fresh (by rw [hqueue]; nofun)
  have hfirst := hin.jobs_queued first (by rw [hqueue]; exact List.mem_cons_self)
  have hturn : ∀ context, Heedful (begin first.task context crew.world) := by
    intro context
    cases htask : first.task with
    | occupation => exact absurd htask hfirst
    | job id request => exact heedful_begin hin.heedful ..
  have hdeadline : crew.deadline ≤ since + settings.taskTimeout := by
    rw [← hnow, ← hin.same_settings]
    exact crew.circumstances.deadlineAfter_le ..
  have hready : crew.vacate rest = { crew with queue := rest } := by
    simp [Pool.Machine.vacate, Pool.Machine.admitNext, hin.nobody_waits.2]
  obtain ⟨ownPlace, nextPlace, heq⟩ := crew.firstTurn_vacate_eq rest first.ticket _ _
  rw [Pool.Machine.launch_eq, heq, hready]
  exact {
    same_settings := hin.same_settings
    none_lost := hin.none_lost
    nobody_waits := hin.nobody_waits
    jobs_queued := fun queued hqueued =>
      hin.jobs_queued queued (hqueue ▸ List.mem_cons_of_mem _ hqueued)
    heedful := (hturn _).script
    fresh := fun _ => hnow
    timed := by
      intro task htask
      rcases List.mem_append.1 htask with hold | hnew
      · exact hin.timed task hold
      · exact (hturn _).timed hdeadline hnew }

/-- A task that gets a turn keeps its deadline. -/
theorem resume (hin : InTime settings since crew) {task : Pool.Running Progress}
    (htask : task ∈ crew.running) (cue : Pool.Cue) :
    InTime settings since (crew.resume work task cue) := by
  have hown := hin.timed task htask
  have hturn : ∀ context, Heedful (goOn task.state cue context crew.world) :=
    heedful_goOn hin.heedful hown.on_command cue
  obtain ⟨ownPlace, nextPlace, heq⟩ := crew.resume_eq work task cue
  rw [heq]
  exact {
    same_settings := hin.same_settings
    none_lost := hin.none_lost
    nobody_waits := hin.nobody_waits
    jobs_queued := hin.jobs_queued
    heedful := (hturn _).script
    fresh := hin.fresh
    timed := by
      intro other hother
      rcases List.mem_append.1 hother with hold | hnew
      · exact hin.timed other (List.mem_of_mem_filter hold)
      · exact (hturn _).timed hown.deadline_le hnew }

/-- What concerns neither the queue nor the workers leaves the pool in time. -/
theorem aside (hin : InTime settings since crew) (hstaff : SameStaff crew crew')
    (hcallers : crew'.admitted = [] ∧ crew'.waiting = [])
    (hscript : crew'.world.script = crew.world.script) (hqueue : crew'.queue = crew.queue)
    (hnow : crew'.queue ≠ [] → crew'.now = crew.now) (hrunning : crew'.running = crew.running) :
    InTime settings since crew' where
  same_settings := hstaff.settings.trans hin.same_settings
  none_lost := hstaff.lost.trans hin.none_lost
  nobody_waits := hcallers
  jobs_queued := hqueue ▸ hin.jobs_queued
  heedful := hscript ▸ hin.heedful
  fresh hwaits := (hnow hwaits).trans (hin.fresh (hqueue ▸ hwaits))
  timed := hrunning ▸ hin.timed

/-- A worker that looks at the clock leaves the deadlines as they are. -/
theorem ring (hin : InTime settings since crew) (ticket : Nat) :
    InTime settings since (crew.ring ticket) := by
  refine { hin with timed := ?_ }
  rintro _ htask
  obtain ⟨task, hmem, rfl⟩ := List.mem_map.1 htask
  have htimed := hin.timed task hmem
  split
  · exact ⟨htimed.on_command, htimed.heeds_cancel, htimed.deadline_le⟩
  · exact htimed

theorem step (hin : InTime settings since crew) (hstep : Pool.Machine.Step work crew crew') :
    InTime settings since crew' := by
  have hnobody := hin.nobody_waits
  cases hstep with
  | work hwork =>
      cases hwork with
      | launch hqueue => exact hin.launch hqueue
      | crash _ _ hcall => cases hcall
      | resume htask => exact hin.resume htask _
      | ring ticket => exact hin.ring ticket
      | enterAll =>
          rw [Pool.Machine.enterAll_eq, hnobody.1]
          exact hin.aside ⟨rfl, rfl⟩ ⟨rfl, hnobody.2⟩ rfl (List.append_nil _) (fun _ => rfl) rfl
      | callerTurn hcaller =>
          rw [hnobody.1, hnobody.2] at hcaller
          cases hcaller
  | finishClosing | giveUp => exact hin.aside ⟨rfl, rfl⟩ hnobody rfl rfl (fun _ => rfl) rfl

theorem steps (hin : InTime settings since crew) (hsteps : Pool.Machine.Steps work crew crew') :
    InTime settings since crew' := by
  induction hsteps with
  | refl => exact hin
  | tail _ hstep ih => exact ih.step hstep

theorem close (hin : InTime settings since crew) (htidy : crew.Tidy) (patience : Nat)
    (inFront : Bool) : InTime settings since (crew.close work patience inFront) := by
  have hnobody := hin.nobody_waits
  rw [Pool.Machine.close_eq]
  split
  · have hshut : InTime settings since crew.shut := by
      rw [Pool.Machine.shut_eq]
      exact hin.aside ⟨rfl, rfl⟩ ⟨rfl, rfl⟩ rfl rfl (fun _ => rfl) rfl
    have htidy' : crew.shut.Tidy := htidy.change (b := work) (.shut crew)
    split
    · have hgiveUp := Pool.Machine.Step.giveUp (b := work) crew.shut
      exact (hshut.step hgiveUp).steps (Pool.Machine.steps_settle work (htidy'.step hgiveUp))
    · have hawaiting : (crew.awaiting patience inFront).Tidy := { htidy' with }
      apply InTime.steps _ (Pool.Machine.steps_settle work hawaiting)
      exact hshut.aside ⟨rfl, rfl⟩ hshut.nobody_waits rfl rfl (fun _ => rfl) rfl
  · exact hin.aside ⟨rfl, rfl⟩ hnobody rfl rfl (fun _ => rfl) rfl

/-- Nobody works in a pool whose workers hold no job. -/
theorem running_eq_nil (hin : InTime settings since crew) (hnone : holds crew.running = []) :
    crew.running = [] := by
  rw [List.eq_nil_iff_forall_not_mem]
  intro task htask
  have hhold := List.filterMap_eq_nil_iff.1 hnone task htask
  cases hstate : task.state with
  | occupied => exact (hin.timed task htask).on_command hstate
  | command =>
      rw [hstate] at hhold
      cases hhold

variable {c : Chronicle} {surroundings : Executor.Surroundings}

/-- A job that comes to a pool without any sets the clock of the pool. -/
theorem enqueue (hin : InTime settings since crew) (htells : c.Tells surroundings crew)
    (hfree : crew.world.store.current = none) (store : Store) (id : JobId) (request : Request) :
    InTime settings crew.now
      (Pool.Machine.enqueue { crew with world := { crew.world with store } }.ticketed
        crew.nextTicket (.job id request)) := by
  have hidle := htells.idle_of_free hfree
  have hqueue : crew.queue = [] := by
    apply queue_eq_nil hin.jobs_queued
    rw [htells.queue, hidle]
    rfl
  have hrunning : crew.running = [] := by
    apply hin.running_eq_nil
    rw [htells.running, hidle]
    rfl
  refine ⟨hin.same_settings, hin.none_lost, hin.nobody_waits, ?_, hin.heedful, fun _ => rfl, ?_⟩
  · intro queued hqueued
    change queued ∈ crew.queue ++ [_] at hqueued
    rw [hqueue, List.nil_append, List.mem_singleton] at hqueued
    rw [hqueued]
    nofun
  · intro task htask
    change task ∈ crew.running at htask
    rw [hrunning] at htask
    cases htask

/-- In a pool at rest no job waits for a worker. -/
theorem queue_eq_nil_of_atRest (hin : InTime settings since crew)
    (hworkers : 0 < settings.workers) (htells : c.Tells surroundings crew)
    (hrest : crew.AtRest) : crew.queue = [] := by
  have hqueue := htells.queue
  have hrunning := htells.running
  cases hphase : c.phase with
  | idle | underWay =>
      rw [hphase] at hqueue
      exact queue_eq_nil hin.jobs_queued hqueue
  | queued errand =>
      -- The job that waits is the only one in the pool, so no worker has anything to do.
      rw [hphase] at hrunning
      by_contra hwaits
      have hbusy := hrest.settled.nobody_idles hwaits
      rw [Pool.Machine.hasIdleWorker, hin.running_eq_nil hrunning, hin.none_lost,
        hin.same_settings] at hbusy
      simp [hworkers] at hbusy

/-- In a pool at rest the deadline of the job that it has lies ahead. -/
theorem lt_deadline (hin : InTime settings since crew) (hworkers : 0 < settings.workers)
    (htells : c.Tells surroundings crew) (hrest : crew.AtRest) {errand : Errand}
    (hphase : c.phase.errand? = some errand) : crew.now < since + settings.taskTimeout := by
  have hqueue := htells.queue
  have hrunning := htells.running
  cases hnow : c.phase with
  | idle =>
      rw [hnow] at hphase
      cases hphase
  | queued waiting =>
      rw [hin.queue_eq_nil_of_atRest hworkers htells hrest, hnow] at hqueue
      cases hqueue
  | underWay current done stuck further =>
      obtain ⟨task, htask⟩ : ∃ task, task ∈ crew.running := by
        apply List.exists_mem_of_ne_nil
        intro hnone
        rw [hnone, hnow] at hrunning
        cases hrunning
      have htimed := hin.timed task htask
      have hattended := hrest.punctual.attended task htask
      refine Nat.lt_of_lt_of_le ?_ htimed.deadline_le
      by_contra hpast
      -- The context has been cancelled by now, so the command would have stopped.
      have hcancelled : (crew.context task.deadline task.rung).cancelled = true := by
        simp [Pool.Machine.context, hattended.rung (Nat.le_of_not_lt hpast)]
      have hdeaf := hattended.heard hcancelled
      rw [htimed.heeds_cancel] at hdeaf
      cases hdeaf

end InTime

/-! ## Instants of acceptance -/

/-- An errand with the instant of its acceptance. -/
abbrev Admission := Errand × Nat

namespace State

/-- The errands of a run with the instants of their acceptance, in order. -/
def admissions (state : State) : List Stimulus → List Admission
  | [] => []
  | stimulus :: stimuli =>
    ((state.errand? stimulus).map (·, state.now)).toList ++
      (state.respond stimulus).admissions stimuli

theorem map_fst_admissions (state : State) (stimuli : List Stimulus) :
    (state.admissions stimuli).map Prod.fst = state.errands stimuli := by
  induction stimuli generalizing state with
  | nil => rfl
  | cons stimulus stimuli ih =>
      rw [admissions, errands, List.map_append, ih]
      cases state.errand? stimulus <;> rfl

/-- The admissions of a run are those of its acceptances, one for each, in their order. -/
theorem accepts_admissions (state : State) (stimuli : List Stimulus) :
    List.Forall₂ (fun exchange admission => exchange.Accepts admission.1.id admission.1.request)
      ((state.exchanges stimuli).filter Exchange.isAcceptance) (state.admissions stimuli) := by
  have haccepts := state.accepts_errands stimuli
  rwa [← map_fst_admissions, List.forall₂_map_right_iff] at haccepts

theorem admissions_append (state : State) (before after : List Stimulus) :
    state.admissions (before ++ after) =
      state.admissions before ++ (state.run before).admissions after := by
  induction before generalizing state with
  | nil => rfl
  | cons stimulus before ih =>
      rw [List.cons_append, admissions, ih, admissions, List.append_assoc]
      rfl

end State

/-- The instant of the last admission. -/
def latest (admissions : List Admission) : Nat :=
  (admissions.getLast?.map Prod.snd).getD 0

theorem latest_append_singleton (admissions : List Admission) (admission : Admission) :
    latest (admissions ++ [admission]) = admission.2 := by
  simp [latest]

/-- A service started with these settings has come to a state with these admissions, and its pool
is in time. -/
structure Timely (start : Start) (admissions : List Admission) (state : State) : Prop where
  recounted : ∃ c : Chronicle, c.Recounts start state ∧ c.errands = admissions.map Prod.fst
  in_time : InTime (.of start.workers start.backlog start.taskTimeout) (latest admissions)
    state.crew

namespace Timely

variable {start : Start} {admissions : List Admission} {state between : State}

theorem tidy (htimely : Timely start admissions state) : state.crew.Tidy := by
  obtain ⟨c, hrecounts, -⟩ := htimely.recounted
  exact hrecounts.tells.tidy

theorem workers_pos (start : Start) :
    0 < (Pool.Settings.of start.workers start.backlog start.taskTimeout).workers :=
  Nat.lt_of_lt_of_le Nat.one_pos (Nat.le_max_right ..)

/-- Going on leaves the service timely if it leaves the pool in time. -/
theorem goesOn (htimely : Timely start admissions state) (hgoes : GoesOn state between)
    (hin : InTime (.of start.workers start.backlog start.taskTimeout) (latest admissions)
      between.crew) : Timely start admissions between := by
  obtain ⟨c, hrecounts, herrands⟩ := htimely.recounted
  obtain ⟨c', hrecounts', hsame⟩ := hrecounts.goesOn hgoes
  exact ⟨⟨c', hrecounts', hsame.trans herrands⟩, hin⟩

/-- An answer adds the errand that comes of it to the admissions, with the present instant. -/
theorem reply (htimely : Timely start admissions state) {message : Http.Request}
    {response : Http.Response} {after : State} (hreply : Reply state message response after) :
    Timely start
      (admissions ++ ((state.errandOf? ⟨message, response⟩).map (·, state.now)).toList) after := by
  obtain ⟨c, hrecounts, herrands⟩ := htimely.recounted
  obtain ⟨c', hrecounts', herrands'⟩ := hrecounts.reply hreply
  have hin := htimely.in_time
  refine ⟨⟨c', hrecounts', ?_⟩, ?_⟩
  · rw [herrands', herrands, List.map_append]
    cases state.errandOf? ⟨message, response⟩ <;> rfl
  cases hreply with
  | plain limiter hstatus hrefused =>
      rw [state.errandOf?_of_refused hrefused]
      simpa only [Option.map_none, Option.toList_none, List.append_nil] using hin
  | accepted limiter judged limit hasks hrequest haction hfree htakes hroom =>
      have hqueued := hin.enqueue hrecounts.tells hfree
        (state.store.tryStart (state.jobOf judged)).2 state.nextId judged.request
      have hstatus : ((acceptance state.nextId judged.action).withHeader limitHeader limit).status =
          .accepted := status_acceptance ..
      rw [State.errandOf?_eq_some state hasks hstatus hrequest, Option.map_some,
        Option.toList_some, latest_append_singleton]
      exact hqueued
  | rejected limiter judged error hfree herror hstatus =>
      have haside : InTime (.of start.workers start.backlog start.taskTimeout)
          (latest admissions) ({ state with limiter }.reject judged error).crew :=
        hin.aside ⟨rfl, rfl⟩ hin.nobody_waits rfl rfl (fun _ => rfl) rfl
      rw [state.errandOf?_of_refused fun _ => by rw [hstatus]; nofun]
      simpa only [Option.map_none, Option.toList_none, List.append_nil] using haside

theorem meet (htimely : Timely start admissions state) {stimulus : Stimulus}
    (hjobs : stimulus ≠ .occupy) :
    Timely start (admissions ++ ((state.errand? stimulus).map (·, state.now)).toList)
      (state.meet stimulus) := by
  cases stimulus with
  | message message =>
      rw [State.errand?_message]
      exact htimely.reply (reply_answer state message)
  | occupy => exact absurd rfl hjobs
  | elapse | release | closePool | setClock =>
      show Timely start (admissions ++ []) state
      rwa [List.append_nil]

/-- At rest, the service can be brought to another instant. -/
theorem arrive (htimely : Timely start admissions state) (hrest : state.crew.AtRest)
    (span instant : Nat) : Timely start admissions ((state.tick span).arrive instant) := by
  obtain ⟨c, hrecounts, -⟩ := htimely.recounted
  have hin := htimely.in_time
  have hqueue := hin.queue_eq_nil_of_atRest (workers_pos start) hrecounts.tells hrest
  let moved : Crew := { (state.tick span).crew with now := instant }
  have hmoved : InTime (.of start.workers start.backlog start.taskTimeout) (latest admissions)
      moved :=
    hin.aside ⟨rfl, rfl⟩ hin.nobody_waits rfl rfl (fun hwaits => absurd hqueue hwaits) rfl
  have htidy : moved.Tidy := { htimely.tidy with }
  have hsettled := hmoved.steps (Pool.Machine.steps_settle work htidy)
  obtain ⟨store, hswept⟩ :=
    State.crew_sweeps ((state.tick span).withCrew ((state.tick span).crew.arrive work instant))
  apply htimely.goesOn (State.goesOn_arrive htimely.tidy span instant)
  rw [State.arrive, hswept]
  exact hsettled.aside ⟨rfl, rfl⟩ hsettled.nobody_waits rfl rfl (fun _ => rfl) rfl

/-- As time passes the service stays timely. -/
theorem visits (htimely : Timely start admissions state) (hrest : state.crew.AtRest)
    {target : Nat} (hvisits : State.line.Visits target state between) :
    Timely start admissions between := by
  induction hvisits with
  | start => exact htimely
  | stop hbefore _ ih =>
      have hrests := State.atRest_of_visits htimely.tidy hrest hbefore
      exact ih.arrive hrests ..

/-- The service stays timely in all states that it passes while it deals with a stimulus. -/
theorem passes (htimely : Timely start admissions state) (hrest : state.crew.AtRest)
    {stimulus : Stimulus} (hjobs : stimulus ≠ .occupy)
    (hpasses : state.Passes stimulus between) :
    Timely start (admissions ++ ((state.errand? stimulus).map (·, state.now)).toList) between := by
  have hmet := htimely.meet hjobs
  have hgoes := State.goesOn_of_passes hmet.tidy hpasses
  cases stimulus with
  | message message =>
      obtain rfl : between = state.respond (.message message) := hpasses
      rw [State.respond_message] at hgoes ⊢
      exact hmet.goesOn hgoes (hmet.in_time.steps (Pool.Machine.steps_settle work hmet.tidy))
  | occupy => exact absurd rfl hjobs
  | release =>
      obtain rfl : between = state.release := hpasses
      have hreleased := Pool.Machine.steps_release work htimely.tidy fun _ => true
      exact hmet.goesOn hgoes (hmet.in_time.steps hreleased)
  | setClock reading =>
      obtain rfl : between = state.setClock reading := hpasses
      have hmetin := hmet.in_time
      apply hmet.goesOn hgoes
      exact hmetin.aside ⟨rfl, rfl⟩ hmetin.nobody_waits rfl rfl (fun _ => rfl) rfl
  | elapse span => exact hmet.visits hrest hpasses
  | closePool patience inFront =>
      obtain rfl : between = state.beginClosing patience inFront := hpasses
      exact hmet.goesOn hgoes (hmet.in_time.close htimely.tidy patience inFront)

/-- After every run without occupations the service is timely. -/
theorem run (htimely : Timely start admissions state) (hrest : state.crew.AtRest)
    {stimuli : List Stimulus} (hjobs : .occupy ∉ stimuli) :
    Timely start (admissions ++ state.admissions stimuli) (state.run stimuli) ∧
      (state.run stimuli).crew.AtRest := by
  induction stimuli generalizing state admissions with
  | nil =>
      rw [State.admissions, List.append_nil]
      exact ⟨htimely, hrest⟩
  | cons stimulus stimuli ih =>
      rw [List.mem_cons, not_or] at hjobs
      have hpasses := state.passes_respond stimulus
      have hnext := htimely.passes hrest (Ne.symm hjobs.1) hpasses
      have hmet := (htimely.meet (Ne.symm hjobs.1)).tidy
      rw [State.admissions, ← List.append_assoc]
      exact ih hnext (State.atRest_of_passes hmet hrest hpasses) hjobs.2

/-- The job in the slot is the one that was accepted last, and its deadline lies ahead. -/
theorem lt_deadline (htimely : Timely start admissions state) (hrest : state.crew.AtRest)
    {job : Job} (hcurrent : state.store.current = some job) :
    ∃ errand instant, admissions.getLast? = some (errand, instant) ∧ errand.id = job.id ∧
      state.now < instant + start.taskTimeout := by
  obtain ⟨c, hrecounts, herrands⟩ := htimely.recounted
  have htells := hrecounts.tells
  have hslot : some job.id = c.phase.errand?.map Errand.id := by
    rw [← htells.slot, ← htells.store]
    exact (congrArg (Option.map Job.id) hcurrent).symm
  obtain ⟨errand, hphase, hid⟩ := Option.map_eq_some_iff.1 hslot.symm
  have hahead := htimely.in_time.lt_deadline (workers_pos start) htells hrest hphase
  rw [Chronicle.errands, hphase] at herrands
  obtain ⟨earlier, final, rfl, -, hfinal⟩ := List.map_eq_append_iff.1 herrands.symm
  obtain ⟨⟨_, instant⟩, rfl, rfl⟩ := List.map_eq_singleton_iff.1 hfinal
  rw [latest_append_singleton] at hahead
  exact ⟨_, instant, List.getLast?_concat, hid, hahead⟩

/-- An errand that is past its deadline is over. -/
theorem closed_of_past (htimely : Timely start admissions state) (hrest : state.crew.AtRest)
    {c : Chronicle} (hrecounts : c.Recounts start state)
    (herrands : c.errands = admissions.map Prod.fst) {errand : Errand} {instant : Nat}
    (hadmitted : (errand, instant) ∈ admissions)
    (hpast : instant + start.taskTimeout ≤ state.now) :
    ∃ fate, (errand, fate) ∈ c.past := by
  have hcases : errand ∈ c.past.map Prod.fst := by
    cases hphase : c.phase.errand? with
    | none =>
        rw [Chronicle.errands, hphase, Option.toList_none, List.append_nil] at herrands
        rw [herrands]
        exact List.mem_map_of_mem hadmitted
    | some current =>
        -- Only the last errand can be the one that the pool has, and it is not past its deadline.
        have hahead :=
          htimely.in_time.lt_deadline (workers_pos start) hrecounts.tells hrest hphase
        rw [Chronicle.errands, hphase] at herrands
        obtain ⟨earlier, final, rfl, hearlier, hfinal⟩ := List.map_eq_append_iff.1 herrands.symm
        obtain ⟨last, rfl, -⟩ := List.map_eq_singleton_iff.1 hfinal
        rw [latest_append_singleton] at hahead
        rcases List.mem_append.1 hadmitted with hold | hlast
        · rw [← hearlier]
          exact List.mem_map_of_mem hold
        · rw [← List.mem_singleton.1 hlast] at hahead
          exact absurd hahead (Nat.not_lt_of_le hpast)
  obtain ⟨⟨_, fate⟩, hmem, rfl⟩ := List.mem_map.1 hcases
  exact ⟨fate, hmem⟩

end Timely

/-- The service is timely before anything has happened, if no command of its host is deaf. -/
theorem timely_start (start : Start) (hheedful : ∀ ending, .deaf ending ∉ start.script) :
    Timely start [] start.state where
  recounted := ⟨_, Chronicle.recounts_start start, rfl⟩
  in_time := ⟨rfl, rfl, ⟨rfl, rfl⟩, nofun, hheedful, nofun, nofun⟩

/-- If no command of the host is deaf and the pool is asked for nothing but actions, no job keeps
the slot for long: in every settled state that the service passes, the job in the slot, if there
is one, is the one that was accepted last, and that was less than the time ago that a task may
take. Every job that was accepted longer ago is over, well or badly. It does not matter what else
is asked for, how the commands end, or when the pool is closed. -/
theorem in_time_of_run (start : Start) (hheedful : ∀ ending, .deaf ending ∉ start.script)
    (before : List Stimulus) (stimulus : Stimulus) (hjobs : .occupy ∉ before ++ [stimulus]) :
    let admissions := start.state.admissions (before ++ [stimulus])
    List.Forall₂ (fun exchange admission => exchange.Accepts admission.1.id admission.1.request)
      ((start.state.exchanges (before ++ [stimulus])).filter Exchange.isAcceptance) admissions ∧
    ∀ state, (start.state.run before).Passes stimulus state →
      (∀ job, state.store.current = some job →
        ∃ errand instant, admissions.getLast? = some (errand, instant) ∧ errand.id = job.id ∧
          state.now < instant + start.taskTimeout) ∧
      ∃ ledger : Ledger, ledger.Kept ∧ ledger.store = state.store ∧
        ledger.admitted = state.drawnIds ∧
        ∀ errand instant, (errand, instant) ∈ admissions →
          instant + start.taskTimeout ≤ state.now →
          ∃ job, ledger.Knows job ∧ job.id = errand.id ∧ job.isTerminal = true := by
  intro admissions
  refine ⟨start.state.accepts_admissions _, ?_⟩
  intro state hpasses
  rw [List.mem_append, not_or, List.mem_singleton] at hjobs
  have hrest := atRest_run start []
  obtain ⟨hbefore, hbeforeRest⟩ := (timely_start start hheedful).run hrest hjobs.1
  have hadmissions : admissions = [] ++ start.state.admissions before ++
      (((start.state.run before).errand? stimulus).map
        (·, (start.state.run before).now)).toList := by
    show start.state.admissions (before ++ [stimulus]) = _
    rw [State.admissions_append, State.admissions, State.admissions, List.append_nil]
    rfl
  have htimely := hbefore.passes hbeforeRest (Ne.symm hjobs.2) hpasses
  have hmet := (hbefore.meet (Ne.symm hjobs.2)).tidy
  have hstill := State.atRest_of_passes hmet hbeforeRest hpasses
  rw [← hadmissions] at htimely
  obtain ⟨c, hrecounts, herrands⟩ := htimely.recounted
  have htells := hrecounts.tells
  refine ⟨fun job => htimely.lt_deadline hstill, c.ledger, htells.kept, htells.store.symm,
    hrecounts.drawn, ?_⟩
  intro errand instant hadmitted hpast
  obtain ⟨fate, hmem⟩ := htimely.closed_of_past hstill hrecounts herrands hadmitted hpast
  obtain ⟨job, hknows, hid, hended⟩ := (htells.closed _ hmem).known
  exact ⟨job, hknows, hid, Job.isTerminal_of_endedWith hended⟩

/-- The small service is stuck over the first command of the update that it accepts. -/
theorem current_of_accepted {response : Http.Response} {after : State}
    (hreply : Reply Start.small.state smallRun.signed response after)
    (haccepted : response.status = .accepted) : after.settle.store.current.isSome = true := by
  have hcounted : ∀ (state : State) (limiter : RateLimit.Limiter Double) (judged : Judged),
      ({ state with limiter }.accept judged).settle.store =
        ((state.accept judged).crew.settle work).world.store := fun _ _ _ => rfl
  have hupdate : requestOf smallRun.signed = some ⟨"update", none, none, 0⟩ := by decide +kernel
  have haction : Request.parsedAction ⟨"update", none, none, 0⟩ = .ok .update := rfl
  cases hreply with
  | plain limiter _ hrefused => exact absurd haccepted (hrefused accepted_signed.1.1)
  | rejected limiter judged error hfree herror hbusy =>
      rw [haccepted] at hbusy
      cases hbusy
  | accepted limiter judged limit _ hrequest hjudged =>
      obtain ⟨request, action⟩ := judged
      rw [hupdate, Option.some.injEq] at hrequest
      subst hrequest
      rw [haction, Except.ok.injEq] at hjudged
      subst hjudged
      rw [hcounted]
      decide +kernel

/-- The first command of an update is stuck until the time of its job is up. -/
theorem in_time_of_stuck :
    (∀ ending, .deaf ending ∉ Start.small.script) ∧
      Stimulus.occupy ∉ [.message smallRun.signed] ++ [.elapse Start.small.taskTimeout] ∧
      (Start.small.state.run [.message smallRun.signed]).store.current.isSome = true ∧
      ∀ state, (Start.small.state.run [.message smallRun.signed]).Passes
          (.elapse Start.small.taskTimeout) state →
        ∀ job, state.store.current = some job →
          ∃ errand instant, errand.id = job.id ∧ state.now < instant + Start.small.taskTimeout ∧
            (errand, instant) ∈ Start.small.state.admissions
              ([.message smallRun.signed] ++ [.elapse Start.small.taskTimeout]) := by
  have hheedful : ∀ ending, .deaf ending ∉ Start.small.script := by
    simp [Start.small]
  have hjobs : Stimulus.occupy ∉
      [.message smallRun.signed] ++ [.elapse Start.small.taskTimeout] := by simp
  have hrun : ∀ (state : State) (message : Http.Request),
      state.run [.message message] = (answer state message).2.settle := State.respond_message
  refine ⟨hheedful, hjobs, ?_, ?_⟩
  · have haccepted := accepted_signed.2
    rw [State.fst_handle] at haccepted
    rw [hrun]
    exact current_of_accepted (reply_answer ..) haccepted
  intro state hpasses job hcurrent
  obtain ⟨-, hpassed⟩ := in_time_of_run Start.small hheedful [.message smallRun.signed]
    (.elapse Start.small.taskTimeout) hjobs
  obtain ⟨hslot, -⟩ := hpassed state hpasses
  obtain ⟨errand, instant, hlast, hid, hahead⟩ := hslot job hcurrent
  exact ⟨errand, instant, hid, hahead, List.mem_of_getLast? hlast⟩

end Upkeep.Service
