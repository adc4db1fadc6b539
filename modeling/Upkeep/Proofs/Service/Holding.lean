/-
# Who holds a job

A job is held by whoever has to end it: a visit between starting it and giving it to the pool, a
task in the queue, or a task with a worker. In every scene that can come about the jobs held are
those in the slot, so there is one or none, and whoever ends a job finds it there.
-/

import Upkeep.Proofs.Pool.Turn
import Upkeep.Proofs.Service.Interleaving

namespace Upkeep.Service

namespace Stage

/-- The job that a visit holds. -/
def job? : Stage → Option JobId
  | .admitted id | .unscheduled id _ => some id
  | .judged | .unopposed | .ready _ | .beaten | .answered _ => none

/-- The operation on the store that the next move of a visit is. -/
def operation? : Stage → Option Store.Operation
  | .ready job => some (.tryStart job)
  | .unscheduled id error => some (.conclude id (some (unscheduledReason error)))
  | .judged | .unopposed | .beaten | .admitted _ | .answered _ => none

theorem job?_turnedAway (current : Option Job) : (turnedAway current).job? = none := by
  cases current <;> rfl

end Stage

/-- A pool in which no more is kept of a task between its turns than its job. -/
abbrev JobPool := Pool.Machine Assignment (Option JobId) World Report

/-- The jobs whose tasks are in a pool. -/
def jobsOf (pool : JobPool) : List JobId :=
  pool.queue.filterMap (·.task.job?) ++ pool.running.filterMap (·.state)

namespace Scene

/-- The jobs that are held by a visit or a task. -/
def held (scene : Scene) : List JobId :=
  scene.visits.filterMap (·.stage.job?) ++ jobsOf scene.pool

/-- The operation on the store that a move is. -/
def issued? (scene : Scene) : Move → Option Store.Operation
  | .visit n => scene.visits[n]?.bind fun visit => visit.stage.operation?
  | .finish ticket failure =>
    ((scene.task? ticket).bind (·.state)).map fun id => .conclude id failure
  | .sweep maxAge => some (.sweep maxAge)
  | .arrive _ | .occupy | .takeUp | .shut | .giveUp | .setClock _ => none

end Scene

/-- What a further element adds to what a list gives. -/
theorem filterMap_cons_eq {α β : Type} (f : α → Option β) (first : α) (rest : List α) :
    (first :: rest).filterMap f = (f first).toList ++ rest.filterMap f := by
  cases hfirst : f first <;> simp [hfirst]

/-! ## What moves do to the pool -/

section Pools

variable {pool : JobPool}

theorem world_submit (pool : JobPool) (task : Assignment) :
    (pool.submit task).2.world = pool.world := by
  obtain ⟨-, -, hsubmit⟩ | ⟨error, -, hsubmit⟩ := pool.submit_cases task
  · rw [hsubmit]
    rfl
  · rw [hsubmit]
    rfl

theorem world_shut (pool : JobPool) : pool.shut.world = pool.world := by
  rw [Pool.Machine.shut_eq]
  rfl

/-- A task that is taken comes to the pool with its job, and no other does. -/
theorem jobsOf_submit (pool : JobPool) (task : Assignment) (id : JobId) :
    ((pool.submit task).1 = .ok () ∧
        (jobsOf (pool.submit task).2).count id =
          (jobsOf pool).count id + task.job?.toList.count id) ∨
      ∃ error, (pool.submit task).1 = .error error ∧
        (jobsOf (pool.submit task).2).count id = (jobsOf pool).count id := by
  obtain ⟨-, -, hsubmit⟩ | ⟨error, -, hsubmit⟩ := pool.submit_cases task
  · have hqueue : jobsOf (pool.ticketed.enqueue pool.nextTicket task) =
        pool.queue.filterMap (·.task.job?) ++ task.job?.toList ++
          pool.running.filterMap (·.state) := by
      show (pool.queue ++ [_]).filterMap _ ++ pool.running.filterMap (·.state) = _
      rw [List.filterMap_append, filterMap_cons_eq, List.filterMap_nil, List.append_nil]
    left
    rw [hsubmit, hqueue, jobsOf]
    simp only [List.count_append, true_and]
    omega
  · right
    rw [hsubmit]
    exact ⟨error, rfl, rfl⟩

/-- A worker that starts a task takes over its job, and does nothing else. -/
theorem launch_startAndEnd (pool : JobPool) (first : Pool.Queued Assignment)
    (rest : List (Pool.Queued Assignment)) :
    ((pool.vacate rest).launch (startAndEnd none) first).world = pool.world ∧
      ((pool.vacate rest).launch (startAndEnd none) first).queue = rest ∧
      ((pool.vacate rest).launch (startAndEnd none) first).running.filterMap (·.state) =
        pool.running.filterMap (·.state) ++ first.task.job?.toList := by
  obtain ⟨ownPlace, nextPlace, heq⟩ := pool.firstTurn_vacate_eq rest first.ticket _ _
  rw [Pool.Machine.launch_eq, heq]
  refine ⟨rfl, rfl, ?_⟩
  rw [List.filterMap_append]
  cases hjob : first.task.job? <;> simp [startAndEnd, Pool.Machine.paused, hjob]

theorem jobsOf_launch {first : Pool.Queued Assignment} {rest : List (Pool.Queued Assignment)}
    (hqueue : pool.queue = first :: rest) (id : JobId) :
    (jobsOf ((pool.vacate rest).launch (startAndEnd none) first)).count id =
      (jobsOf pool).count id := by
  obtain ⟨-, hrest, hrunning⟩ := launch_startAndEnd pool first rest
  rw [jobsOf, hrest, hrunning, jobsOf, hqueue, filterMap_cons_eq]
  simp only [List.count_append]
  omega

/-- A started task ends its job, and nothing else happens. -/
theorem resume_startAndEnd (pool : JobPool) (task : Pool.Running (Option JobId))
    (failure : Option String) :
    (pool.resume (startAndEnd failure) task .release).world =
        (match task.state with
          | none => pool.world
          | some id => record pool.world id failure pool.world.clock) ∧
      (pool.resume (startAndEnd failure) task .release).queue = pool.queue ∧
      (pool.resume (startAndEnd failure) task .release).running =
        pool.running.filter (·.ticket ≠ task.ticket) := by
  have hturned := Pool.Machine.turned_resume (startAndEnd failure) pool task .release
  obtain ⟨deadline, rung, place, hrunning⟩ := hturned.running
  refine ⟨?_, hturned.queue, ?_⟩
  · rw [hturned.world]
    cases task.state <;> rfl
  · rw [hrunning]
    cases hstate : task.state <;>
      simp [startAndEnd, Pool.Machine.paused]

theorem jobsOf_resume (hsound : pool.Sound) {task : Pool.Running (Option JobId)}
    (htask : task ∈ pool.running) (failure : Option String) (id : JobId) :
    (jobsOf (pool.resume (startAndEnd failure) task .release)).count id +
      task.state.toList.count id = (jobsOf pool).count id := by
  obtain ⟨-, hqueue, hrunning⟩ := resume_startAndEnd pool task failure
  have hnodup : (pool.running.map (·.ticket)).Nodup := hsound.nodup_running
  have hall := Pool.Tally.cons_filter_ne_perm (·.ticket) hnodup htask
  have hjobs := (hall.filterMap (·.state)).count_eq id
  rw [filterMap_cons_eq, List.count_append] at hjobs
  rw [jobsOf, hqueue, hrunning, jobsOf, List.count_append, List.count_append]
  omega

end Pools

namespace Scene

variable {scene : Scene}

/-! ## What moves do to the store -/

/-- What a move of a visit comes to: the stage in which the visit is then, and the pool. -/
inductive Turn (scene : Scene) (judged : Judged) : Stage → Stage → JobPool → Prop
  | sees (job : Job) (hcurrent : scene.store.current = some job) :
      Turn scene judged .judged (.answered (.error (.jobInProgress job))) scene.pool
  | passes (hfree : scene.store.current = none) : Turn scene judged .judged .unopposed scene.pool
  | makes :
      Turn scene judged .unopposed
        (.ready ⟨scene.supply scene.drawn, judged.action, scene.clock, .pending⟩) scene.pool
  | starts (job : Job) (hstarts : (scene.store.tryStart job).1 = true) :
      Turn scene judged (.ready job) (.admitted job.id)
        (scene.withStore (scene.store.tryStart job).2).pool
  | fails (job : Job) (hrefused : (scene.store.tryStart job).1 = false) :
      Turn scene judged (.ready job) .beaten scene.pool
  | leaves : Turn scene judged .beaten (.turnedAway scene.store.current) scene.pool
  | submits (id : JobId) :
      Turn scene judged (.admitted id)
        (.scheduled id (scene.pool.submit (.job id judged.request)).1)
        (scene.pool.submit (.job id judged.request)).2
  | withdraws (id : JobId) (error : Pool.PoolError) :
      Turn scene judged (.unscheduled id error) (.answered (.error (.atCapacity error id)))
        (scene.withStore
          (scene.store.failJob id (unscheduledReason error) scene.clock).2).pool
  | rests (outcome : Except Refusal JobId) :
      Turn scene judged (.answered outcome) (.answered outcome) scene.pool

theorem step_visit {n : Nat} {visit : Visit} (hvisit : scene.visits[n]? = some visit) :
    ∃ drawn stage pool, scene.Turn visit.judged visit.stage stage pool ∧
      scene.step (.visit n) =
        ⟨scene.supply, drawn, scene.visits.set n { visit with stage }, pool⟩ := by
  obtain ⟨judged, stage⟩ := visit
  simp only [step, hvisit]
  cases stage with
  | judged =>
      cases hcurrent : scene.store.current with
      | some job =>
          refine ⟨scene.drawn, _, _, .sees job hcurrent, ?_⟩
          simp only [advance, hcurrent]
          rfl
      | none =>
          refine ⟨scene.drawn, _, _, .passes hcurrent, ?_⟩
          simp only [advance, hcurrent]
          rfl
  | unopposed => exact ⟨_, _, _, .makes, rfl⟩
  | ready job =>
      cases hstarts : (scene.store.tryStart job).1 with
      | true =>
          refine ⟨scene.drawn, _, _, .starts job hstarts, ?_⟩
          simp only [advance, hstarts]
          rfl
      | false =>
          refine ⟨scene.drawn, _, _, .fails job hstarts, ?_⟩
          simp only [advance, hstarts, Store.tryStart_of_refused hstarts]
          rfl
  | beaten => exact ⟨_, _, _, .leaves, rfl⟩
  | admitted id => exact ⟨_, _, _, .submits id, rfl⟩
  | unscheduled id error => exact ⟨_, _, _, .withdraws id error, rfl⟩
  | answered outcome =>
      refine ⟨scene.drawn, _, _, .rests outcome, ?_⟩
      have hsame : scene.visits.set n ⟨judged, .answered outcome⟩ = scene.visits := by
        obtain ⟨hn, hget⟩ := List.getElem?_eq_some_iff.1 hvisit
        rw [← hget, List.set_getElem_self]
      rw [hsame]
      rfl

/-- A move does to the store what it is said to do, and nothing else. -/
theorem store_step (scene : Scene) (move : Move) :
    (scene.step move).store =
      match scene.issued? move with
      | some operation => scene.store.apply operation scene.clock
      | none => scene.store := by
  cases move with
  | arrive | giveUp | setClock | sweep => rfl
  | shut => exact congrArg World.store (world_shut _)
  | visit n =>
      cases hvisit : scene.visits[n]? with
      | none => simp [step, issued?, hvisit]
      | some visit =>
          obtain ⟨drawn, stage, pool, hturn, hstep⟩ := step_visit hvisit
          obtain ⟨judged, before⟩ := visit
          rw [hstep, issued?, hvisit, Option.bind_some]
          cases hturn with
          | sees | passes | makes | starts | leaves | withdraws | rests => rfl
          | fails job hrefused => exact (Store.tryStart_of_refused hrefused).symm
          | submits id => exact congrArg World.store (world_submit ..)
  | occupy => exact congrArg World.store (world_submit ..)
  | takeUp =>
      simp only [step, issued?]
      split
      · rfl
      · split
        · exact congrArg World.store (launch_startAndEnd ..).1
        · rfl
  | finish ticket failure =>
      cases htask : scene.task? ticket with
      | none => simp [step, issued?, htask]
      | some task =>
          simp only [step, issued?, htask, Option.bind_some]
          have hworld := (resume_startAndEnd scene.pool task failure).1
          cases hstate : task.state with
          | none =>
              rw [hstate] at hworld
              exact congrArg World.store hworld
          | some id =>
              rw [hstate] at hworld
              exact congrArg World.store (hworld.trans (record_eq ..))

/-- Who ends a job: the visit that could not give it to the pool, or its task. -/
inductive Ending (scene : Scene) : Move → JobId → Prop
  | withdraw {n : Nat} {visit : Visit} {id : JobId} (error : Pool.PoolError)
      (hvisit : scene.visits[n]? = some visit) (hstage : visit.stage = .unscheduled id error) :
      Ending scene (.visit n) id
  | finish {ticket : Nat} {task : Pool.Running (Option JobId)} {id : JobId}
      (failure : Option String) (htask : scene.task? ticket = some task)
      (hstate : task.state = some id) : Ending scene (.finish ticket failure) id

/-- Where an operation comes from. -/
inductive Issue (scene : Scene) : Move → Store.Operation → Prop
  | start {n : Nat} {visit : Visit} (job : Job) (hvisit : scene.visits[n]? = some visit)
      (hstage : visit.stage = .ready job) : Issue scene (.visit n) (.tryStart job)
  | conclude {move : Move} {id : JobId} (failure : Option String)
      (hending : scene.Ending move id) : Issue scene move (.conclude id failure)
  | sweep (maxAge : Nat) : Issue scene (.sweep maxAge) (.sweep maxAge)

theorem issue_of_issued {move : Move} {operation : Store.Operation}
    (hissued : scene.issued? move = some operation) : scene.Issue move operation := by
  cases move with
  | visit n =>
      obtain ⟨visit, hvisit, hoperation⟩ := Option.bind_eq_some_iff.1 hissued
      cases hstage : visit.stage with
      | ready job =>
          rw [hstage] at hoperation
          cases hoperation
          exact .start job hvisit hstage
      | unscheduled id error =>
          rw [hstage] at hoperation
          cases hoperation
          exact .conclude (some _) (.withdraw error hvisit hstage)
      | judged | unopposed | beaten | admitted | answered =>
          rw [hstage] at hoperation
          cases hoperation
  | finish ticket failure =>
      obtain ⟨id, hjob, rfl⟩ := Option.map_eq_some_iff.1 hissued
      obtain ⟨task, htask, hstate⟩ := Option.bind_eq_some_iff.1 hjob
      exact .conclude failure (.finish failure htask hstate)
  | sweep maxAge =>
      cases hissued
      exact .sweep maxAge
  | arrive | occupy | takeUp | shut | giveUp | setClock => cases hissued

theorem ending_of_issued {move : Move} {id : JobId} {failure : Option String}
    (hissued : scene.issued? move = some (.conclude id failure)) : scene.Ending move id := by
  have hissue := issue_of_issued hissued
  generalize hoperation : Store.Operation.conclude id failure = operation at hissue
  cases hissue with
  | start | sweep => cases failure <;> cases hoperation
  | conclude other hending => cases failure <;> cases other <;> cases hoperation <;> exact hending

/-! ## Order -/

/-- The books of the pool and the store are in order, and the job in the slot is the one job that
somebody holds. -/
structure Orderly (scene : Scene) : Prop where
  pool_sound : scene.pool.Sound
  store_sound : scene.store.Sound
  held_perm : scene.held.Perm (scene.store.current.map Job.id).toList

/-- A move that ends the job in the slot, well or for a reason. That job goes over to the history;
those that are there stay as they are, but for the oldest if there are too many. -/
structure Concludes (scene : Scene) (move : Move) (job : Job) (failure : Option String) : Prop where
  current : scene.store.current = some job
  issued : scene.issued? move = some (.conclude job.id failure)
  ends : ∃ ended, job.EndsAs ended ∧ ended.EndedWith failure ∧
    (scene.step move).store = ⟨scene.store.maxHistory, none,
      Store.keepNewest scene.store.maxHistory (scene.store.history ++ [ended])⟩

/-- A move that starts a job. -/
structure Starts (scene : Scene) (move : Move) (job : Job) : Prop where
  issued : scene.issued? move = some (.tryStart job)
  started : (scene.store.tryStart job).1 = true

/-- A job is started in a free slot, and then holds it. -/
theorem Orderly.current_of_starts (horderly : scene.Orderly) {move : Move} {job : Job}
    (hstarts : scene.Starts move job) :
    scene.store.current = none ∧
      (scene.step move).store.current = some { job with state := .running } := by
  obtain ⟨hfree, hpending⟩ := (horderly.store_sound.tryStart_iff job).1 hstarts.started
  rw [store_step, hstarts.issued]
  exact ⟨hfree, congrArg (·.2.current) (Store.tryStart_of_free hfree hpending)⟩

/-- An attempt to start a job that fails changes nothing in the store. -/
theorem store_of_refused {move : Move} {job : Job}
    (hissued : scene.issued? move = some (.tryStart job))
    (hrefused : (scene.store.tryStart job).1 = false) :
    (scene.step move).store = scene.store := by
  rw [store_step, hissued]
  exact Store.tryStart_of_refused hrefused

/-- Nobody but the holder of a job ends it. -/
theorem Ending.held {move : Move} {id : JobId} (hending : scene.Ending move id) :
    id ∈ scene.held := by
  cases hending with
  | withdraw error hvisit hstage =>
      apply List.mem_append_left
      exact List.mem_filterMap.2 ⟨_, List.mem_of_getElem? hvisit, by rw [hstage]; rfl⟩
  | finish failure htask hstate =>
      apply List.mem_append_right
      apply List.mem_append_right
      exact List.mem_filterMap.2 ⟨_, List.mem_of_find?_eq_some htask, hstate⟩

/-- Whoever ends a job finds it in the slot. -/
theorem Orderly.concludes (horderly : scene.Orderly) {move : Move} {id : JobId}
    {failure : Option String} (hissued : scene.issued? move = some (.conclude id failure)) :
    ∃ job, job.id = id ∧ scene.Concludes move job failure := by
  have hheld := horderly.held_perm.subset (ending_of_issued hissued).held
  rw [Option.mem_toList, Option.map_eq_some_iff] at hheld
  obtain ⟨job, hcurrent, rfl⟩ := hheld
  obtain ⟨ended, hends, hended, happly, -⟩ :=
    horderly.store_sound.conclude hcurrent failure scene.clock
  have hstore : (scene.step move).store = ⟨scene.store.maxHistory, none,
      Store.keepNewest scene.store.maxHistory (scene.store.history ++ [ended])⟩ := by
    rw [store_step, hissued]
    exact happly
  exact ⟨job, rfl, hcurrent, hissued, ended, hends, hended, hstore⟩

theorem Concludes.current_step {move : Move} {job : Job} {failure : Option String}
    (hconcludes : scene.Concludes move job failure) : (scene.step move).store.current = none := by
  obtain ⟨ended, -, -, hstore⟩ := hconcludes.ends
  rw [hstore]

theorem Orderly.store_sound_step (horderly : scene.Orderly) (move : Move) :
    (scene.step move).store.Sound := by
  rw [store_step]
  cases scene.issued? move with
  | none => exact horderly.store_sound
  | some operation =>
      have heffect := horderly.store_sound.effect operation scene.clock
      exact heffect.sound horderly.store_sound

theorem Orderly.pool_sound_step (horderly : scene.Orderly) (move : Move) :
    (scene.step move).pool.Sound := by
  have hsound := horderly.pool_sound
  have hsubmit : ∀ task, (scene.pool.submit task).2.Sound := fun task =>
    hsound.happening (b := startAndEnd none) (.submit _ task)
  cases move with
  | arrive | setClock | sweep => exact hsound
  | visit n =>
      cases hvisit : scene.visits[n]? with
      | none =>
          simp only [step, hvisit]
          exact hsound
      | some visit =>
          obtain ⟨drawn, stage, pool, hturn, hstep⟩ := step_visit hvisit
          obtain ⟨judged, before⟩ := visit
          rw [hstep]
          cases hturn with
          | submits id => exact hsubmit _
          | sees | passes | makes | starts | fails | leaves | withdraws | rests => exact hsound
  | occupy => exact hsubmit _
  | takeUp =>
      simp only [step]
      split
      · exact hsound
      next first rest hqueue =>
        split
        next hidle =>
          have htaken : Pool.Machine.Happening (startAndEnd none) scene.pool
              ((scene.pool.vacate rest).launch (startAndEnd none) first) :=
            .change (.step (.work (.launch hqueue hidle rfl)))
          exact hsound.happening htaken
        · exact hsound
  | finish ticket failure =>
      simp only [step]
      split
      · exact hsound
      next task htask =>
        have hrunning := List.mem_of_find?_eq_some htask
        have hsettings := (Pool.Machine.turned_resume (startAndEnd failure) scene.pool task
          .release).settings
        exact hsound.of_tally hsettings (.inr (Pool.Machine.tally_resume _ hrunning .release))
  | shut => exact hsound.happening (b := startAndEnd none) (.change (.shut _))
  | giveUp => exact hsound.happening (b := startAndEnd none) (.change (.step (.giveUp _)))

/-! ## Every job stays with its holder -/

theorem count_held (scene : Scene) (id : JobId) :
    scene.held.count id =
      (scene.visits.filterMap (·.stage.job?)).count id + (jobsOf scene.pool).count id :=
  List.count_append

/-- Moving a visit on changes what visits hold by what it held and holds. -/
theorem count_job_set {visits : List Visit} {n : Nat} {visit : Visit}
    (hvisit : visits[n]? = some visit) (stage : Stage) (id : JobId) :
    ((visits.set n { visit with stage }).filterMap (·.stage.job?)).count id +
        visit.stage.job?.toList.count id =
      (visits.filterMap (·.stage.job?)).count id + stage.job?.toList.count id := by
  have hcons : ∀ (first : Visit) (rest : List Visit),
      ((first :: rest).filterMap (·.stage.job?)).count id =
        first.stage.job?.toList.count id + (rest.filterMap (·.stage.job?)).count id := by
    intro first rest
    rw [filterMap_cons_eq, List.count_append]
  induction visits generalizing n with
  | nil => cases hvisit
  | cons first rest ih =>
      cases n with
      | zero =>
          obtain rfl : first = visit := by simpa using hvisit
          rw [List.set_cons_zero, hcons, hcons]
          dsimp only
          omega
      | succ n =>
          have hrest := ih (n := n) (by simpa using hvisit)
          rw [List.set_cons_succ, hcons, hcons]
          omega

theorem count_held_visit {n : Nat} {visit : Visit} (hvisit : scene.visits[n]? = some visit)
    (drawn : Nat) (stage : Stage) (pool : JobPool) (id : JobId) :
    (Scene.mk scene.supply drawn (scene.visits.set n { visit with stage }) pool).held.count id +
        visit.stage.job?.toList.count id + (jobsOf scene.pool).count id =
      scene.held.count id + stage.job?.toList.count id + (jobsOf pool).count id := by
  have hvisits := count_job_set hvisit stage id
  rw [count_held, count_held]
  dsimp only
  omega

/-- A move that does nothing to the store leaves every job with somebody who holds it. -/
theorem Orderly.held_of_idle (horderly : scene.Orderly) {move : Move}
    (hidle : scene.issued? move = none) (id : JobId) :
    (scene.step move).held.count id = scene.held.count id := by
  cases move with
  | arrive judged => simp [step, held, Stage.job?]
  | visit n =>
      cases hvisit : scene.visits[n]? with
      | none => simp [step, hvisit]
      | some visit =>
          obtain ⟨drawn, stage, pool, hturn, hstep⟩ := step_visit hvisit
          have hheld := count_held_visit hvisit drawn stage pool id
          simp only [issued?, hvisit, Option.bind_some] at hidle
          obtain ⟨judged, before⟩ := visit
          rw [hstep]
          cases hturn with
          | sees | passes | makes | rests => exact Nat.add_right_cancel hheld
          | leaves =>
              rw [Stage.job?_turnedAway] at hheld
              exact Nat.add_right_cancel hheld
          | submits holder =>
              -- The job goes to the pool or stays with the visit.
              obtain ⟨htaken, hjobs⟩ | ⟨error, htaken, hjobs⟩ :=
                jobsOf_submit scene.pool (.job holder judged.request) id <;>
                simp only [htaken, hjobs, Stage.scheduled, Stage.job?, Assignment.job?,
                  Option.toList_none, Option.toList_some, List.count_nil] at hheld ⊢ <;>
                omega
          | starts | fails | withdraws => cases hidle
  | occupy =>
      rw [count_held, count_held]
      obtain ⟨-, hjobs⟩ | ⟨error, -, hjobs⟩ := jobsOf_submit scene.pool .occupation id
      · exact congrArg _ hjobs
      · exact congrArg _ hjobs
  | takeUp =>
      simp only [step]
      split
      · rfl
      next first rest hqueue =>
        split
        · rw [count_held, count_held, jobsOf_launch hqueue id]
        · rfl
  | finish ticket failure =>
      simp only [step]
      split
      · rfl
      next task htask =>
        have hstate : task.state = none := by
          simpa [issued?, htask] using hidle
        have hjobs := jobsOf_resume horderly.pool_sound (List.mem_of_find?_eq_some htask) failure id
        rw [hstate] at hjobs
        rw [count_held, count_held]
        exact congrArg _ hjobs
  | shut =>
      simp only [step, Pool.Machine.shut_eq]
      rfl
  | giveUp | setClock => rfl
  | sweep => cases hidle

/-- A job comes to be held by its visit if it is started, and by nobody if it is not. -/
theorem held_of_start {move : Move} {job : Job}
    (hissued : scene.issued? move = some (.tryStart job)) (id : JobId) :
    (scene.step move).held.count id =
      scene.held.count id + if (scene.store.tryStart job).1 then [job.id].count id else 0 := by
  have hissue := issue_of_issued hissued
  generalize hoperation : Store.Operation.tryStart job = operation at hissue
  cases hissue with
  | start other hvisit hstage =>
      cases hoperation
      obtain ⟨drawn, stage, pool, hturn, hstep⟩ := step_visit hvisit
      have hheld := count_held_visit hvisit drawn stage pool id
      rw [hstage] at hturn hheld
      rw [hstep]
      cases hturn with
      | starts _ hstarts =>
          rw [if_pos hstarts]
          exact Nat.add_right_cancel hheld
      | fails _ hrefused =>
          rw [hrefused]
          exact Nat.add_right_cancel hheld
  | conclude failure => cases failure <;> cases hoperation
  | sweep => cases hoperation

/-- Whoever ends a job holds it no longer. -/
theorem Orderly.held_of_ending (horderly : scene.Orderly) {move : Move} {job : JobId}
    (hending : scene.Ending move job) (id : JobId) :
    (scene.step move).held.count id + [job].count id = scene.held.count id := by
  cases hending with
  | withdraw error hvisit hstage =>
      obtain ⟨drawn, stage, pool, hturn, hstep⟩ := step_visit hvisit
      have hheld := count_held_visit hvisit drawn stage pool id
      rw [hstage] at hturn hheld
      rw [hstep]
      cases hturn with
      | withdraws => exact Nat.add_right_cancel hheld
  | finish failure htask hstate =>
      have hjobs := jobsOf_resume horderly.pool_sound (List.mem_of_find?_eq_some htask) failure id
      rw [hstate, Option.toList_some] at hjobs
      simp only [step, htask]
      rw [count_held, count_held]
      dsimp only
      omega

theorem Orderly.held_step (horderly : scene.Orderly) (move : Move) :
    (scene.step move).held.Perm ((scene.step move).store.current.map Job.id).toList := by
  rw [List.perm_iff_count]
  intro id
  have hbefore := horderly.held_perm.count_eq id
  cases hissued : scene.issued? move with
  | none =>
      rw [horderly.held_of_idle hissued, store_step, hissued]
      exact hbefore
  | some operation =>
      have hissue := issue_of_issued hissued
      cases hissue with
      | start job =>
          cases hstarted : (scene.store.tryStart job).1 with
          | true =>
              have hstarts : scene.Starts _ job := ⟨hissued, hstarted⟩
              obtain ⟨hfree, hcurrent⟩ := horderly.current_of_starts hstarts
              rw [hfree] at hbefore
              rw [held_of_start hissued, if_pos hstarted, hbefore, hcurrent]
              exact Nat.zero_add _
          | false =>
              rw [held_of_start hissued, hstarted, store_of_refused hissued hstarted]
              exact hbefore
      | conclude failure hending =>
          obtain ⟨job, rfl, hconcludes⟩ := horderly.concludes hissued
          have hheld := horderly.held_of_ending hending id
          rw [hconcludes.current] at hbefore
          rw [hconcludes.current_step]
          exact Nat.add_right_cancel (hheld.trans (hbefore.trans (Nat.zero_add _).symm))
      | sweep maxAge => exact hbefore

/-- No move upsets the order. -/
theorem Orderly.step (horderly : scene.Orderly) (move : Move) : (scene.step move).Orderly :=
  ⟨horderly.pool_sound_step move, horderly.store_sound_step move, horderly.held_step move⟩

theorem Orderly.run (horderly : scene.Orderly) (moves : List Move) : (scene.run moves).Orderly := by
  induction moves generalizing scene with
  | nil => exact horderly
  | cons move moves ih => exact ih (horderly.step move)

theorem orderly_opening (supply : Nat → JobId) (settings : Pool.Settings) (maxHistory : Nat)
    (world : World) : (opening supply settings maxHistory world).Orderly :=
  ⟨Pool.Machine.sound_fresh .., (Ledger.balanced_blank maxHistory).sound, .refl _⟩

end Scene

end Upkeep.Service
