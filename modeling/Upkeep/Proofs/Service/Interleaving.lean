/-
# Requests and workers side by side

A service deals with many requests at a time, and its workers go on meanwhile. What nobody can
get in between is one look at the store, one change to it, or one submission to the pool: each is
made under a lock. So a request that has been judged is a visit that comes to its answer in a few
moves. It looks at the slot; it makes a job; it tries to start the job; if it was beaten to the
slot it looks again, and otherwise it submits the job to the pool, and lets the job fail if the
pool does not take it. The task of a job makes two moves, its start and its end. In a scene the
moves of any number of visits and tasks follow one another in any order, among them the closing
of the pool and whatever else goes on in the service.

A visit that makes its moves at one go does what `startJob` does, and a turn of a worker on a job
is one of the two moves of a task, or both at one go. Nothing is said here of how long anything
takes, nor that anything happens at all.
-/

import Upkeep.Proofs.Pool.Run
import Upkeep.Proofs.Service.Episode
import Upkeep.Proofs.Service.Reply

namespace Upkeep

/-- The pool in which something else is kept of tasks between their turns. -/
def Pool.Machine.relabel {τ σ σ' ω ε : Type} (label : σ → σ') (m : Pool.Machine τ σ ω ε) :
    Pool.Machine τ σ' ω ε :=
  { m with running := m.running.map fun task => { task with state := label task.state } }

namespace Service

/-- The job that an assignment is about. -/
def Assignment.job? : Assignment → Option JobId
  | .job id _ => some id
  | .occupation => none

/-- The job that a worker is in the middle of. -/
def Progress.job? : Progress → Option JobId
  | .command id _ _ _ => some id
  | .occupied => none

/-- The work on an assignment as a start and an end, between which anything may happen. A job ends
well or for a reason. -/
def startAndEnd (failure : Option String) :
    Pool.Behaviour Assignment (Option JobId) World Report where
  start assignment _ world :=
    { world, waits := some (assignment.job?, { heedsRelease := true }) }
  resume job? _ _ world :=
    match job? with
    | none => { world }
    | some id => { world := record world id failure world.clock }
  start_sound h := by
    cases h
    exact ⟨nofun, nofun⟩
  resume_sound h := by
    split at h <;> cases h

/-! ## Scenes -/

/-- How far a visit has come. -/
inductive Stage where
  | judged
  /-- It has seen the slot free. -/
  | unopposed
  /-- It has made its job. -/
  | ready (job : Job)
  /-- It was beaten to the slot. -/
  | beaten
  /-- Its job holds the slot. -/
  | admitted (id : JobId)
  /-- Its job holds the slot, but the pool has not taken it. -/
  | unscheduled (id : JobId) (error : Pool.PoolError)
  | answered (outcome : Except Refusal JobId)

namespace Stage

/-- Where a visit is whose job was given to the pool. -/
def scheduled (id : JobId) : Except Pool.PoolError Unit → Stage
  | .ok () => .answered (.ok id)
  | .error error => .unscheduled id error

/-- Where a visit ends that was beaten to the slot and then finds this in it. -/
def turnedAway : Option Job → Stage
  | some job => .answered (.error (.jobInProgress job))
  | none => .answered (.error .busy)

end Stage

/-- A request that has been judged, on its way to an answer. -/
structure Visit where
  judged : Judged
  stage : Stage := .judged

/-- A store and a pool with all who act on them. -/
structure Scene where
  /-- The n-th fresh identifier. -/
  supply : Nat → JobId
  drawn : Nat := 0
  /-- The visits so far, in the order in which they came. -/
  visits : List Visit := []
  pool : Pool.Machine Assignment (Option JobId) World Report

namespace Scene

/-- What can happen next in a scene. -/
inductive Move where
  /-- A further request has been judged. -/
  | arrive (judged : Judged)
  /-- A visit, given by its number, makes its next move. -/
  | visit (n : Nat)
  /-- The pool is given something else to do than a job. -/
  | occupy
  /-- A worker starts the first task in the queue. -/
  | takeUp
  /-- A started task ends; if it is that of a job, the job ends well or for a reason. -/
  | finish (ticket : Nat) (failure : Option String)
  /-- The pool is closed. -/
  | shut
  /-- The pool gives up on the tasks that it holds. -/
  | giveUp
  /-- The calendar clock is set. -/
  | setClock (reading : Int)
  /-- Old jobs are swept from the history. -/
  | sweep (maxAge : Nat)

/-- The jobs of the scene. -/
def store (scene : Scene) : Store :=
  scene.pool.world.store

/-- The moment that the calendar clock shows. -/
def clock (scene : Scene) : Timestamp :=
  scene.pool.world.clock

/-- The scene with another world for its workers. -/
def withWorld (scene : Scene) (world : World) : Scene :=
  { scene with pool := { scene.pool with world } }

/-- The scene with another store. -/
def withStore (scene : Scene) (store : Store) : Scene :=
  scene.withWorld { scene.pool.world with store }

/-- The scene in which a visit has come to a stage. -/
def bring (scene : Scene) (n : Nat) (visit : Visit) (stage : Stage) : Scene :=
  { scene with visits := scene.visits.set n { visit with stage } }

/-- The next move of a visit. -/
def advance (scene : Scene) (n : Nat) (visit : Visit) : Scene :=
  match visit.stage with
  | .judged =>
    match scene.store.current with
    | some job => scene.bring n visit (.answered (.error (.jobInProgress job)))
    | none => scene.bring n visit .unopposed
  | .unopposed =>
    { scene with drawn := scene.drawn + 1 }.bring n visit
      (.ready ⟨scene.supply scene.drawn, visit.judged.action, scene.clock, .pending⟩)
  | .ready job =>
    let (started, store) := scene.store.tryStart job
    (scene.withStore store).bring n visit (if started then .admitted job.id else .beaten)
  | .beaten => scene.bring n visit (.turnedAway scene.store.current)
  | .admitted id =>
    let (taken, pool) := scene.pool.submit (.job id visit.judged.request)
    { scene with pool }.bring n visit (.scheduled id taken)
  | .unscheduled id error =>
    (scene.withStore (scene.store.failJob id (unscheduledReason error) scene.clock).2).bring n
      visit (.answered (.error (.atCapacity error id)))
  | .answered _ => scene

/-- The started task with a ticket. -/
def task? (scene : Scene) (ticket : Nat) : Option (Pool.Running (Option JobId)) :=
  scene.pool.running.find? (·.ticket = ticket)

/-- The scene after a move. A move for which there is nobody changes nothing. -/
def step (scene : Scene) : Move → Scene
  | .arrive judged => { scene with visits := scene.visits ++ [{ judged }] }
  | .visit n =>
    match scene.visits[n]? with
    | none => scene
    | some visit => scene.advance n visit
  | .occupy => { scene with pool := (scene.pool.submit .occupation).2 }
  | .takeUp =>
    match scene.pool.queue with
    | [] => scene
    | first :: rest =>
      if scene.pool.hasIdleWorker then
        { scene with pool := (scene.pool.vacate rest).launch (startAndEnd none) first }
      else scene
  | .finish ticket failure =>
    match scene.task? ticket with
    | none => scene
    | some task => { scene with pool := scene.pool.resume (startAndEnd failure) task .release }
  | .shut => { scene with pool := scene.pool.shut }
  | .giveUp => { scene with pool := scene.pool.giveUp }
  | .setClock reading => scene.withWorld { scene.pool.world with reading }
  | .sweep maxAge => scene.withStore (scene.store.sweep maxAge scene.clock)

/-- The scene after a run of moves. -/
def run (scene : Scene) (moves : List Move) : Scene :=
  moves.foldl step scene

/-- A scene in which nothing has happened: no request, no task, no job. -/
def opening (supply : Nat → JobId) (settings : Pool.Settings) (maxHistory : Nat)
    (world : World) : Scene where
  supply
  pool := .fresh settings { world with store := ⟨maxHistory, none, []⟩ }

/-! ## One visit alone -/

/-- The state of the service as a scene with visits to it. -/
def ofState (state : State) (visits : List Visit) : Scene where
  supply := state.setup.supply
  drawn := state.drawn
  visits
  pool := state.crew.relabel Progress.job?

/-- What a submission comes to does not depend on what is kept of tasks between their turns. -/
theorem submit_relabel {τ σ σ' ω ε : Type} (label : σ → σ') (m : Pool.Machine τ σ ω ε)
    (task : τ) :
    (m.relabel label).submit task = ((m.submit task).1, (m.submit task).2.relabel label) := by
  have htakes : (m.relabel label).takesTasks = m.takesTasks := rfl
  have hroom : (m.relabel label).hasRoom = m.hasRoom := rfl
  rw [Pool.Machine.submit_eq, Pool.Machine.submit_eq, htakes, hroom]
  split
  · rfl
  · split <;> rfl

section Alone

variable (state : State) (judged : Judged)

theorem visit_unopposed (hfree : state.store.current = none) :
    (ofState state [{ judged }]).step (.visit 0) = ofState state [⟨judged, .unopposed⟩] := by
  have hslot : (ofState state [{ judged }]).store.current = none := hfree
  show (ofState state [{ judged }]).advance 0 { judged } = _
  simp only [advance, hslot]
  rfl

theorem visit_ready :
    (ofState state [⟨judged, .unopposed⟩]).step (.visit 0) =
      ofState { state with drawn := state.drawn + 1 } [⟨judged, .ready (state.jobOf judged)⟩] :=
  rfl

theorem visit_admitted (hfree : state.store.current = none) :
    (ofState { state with drawn := state.drawn + 1 }
        [⟨judged, .ready (state.jobOf judged)⟩]).step (.visit 0) =
      ofState (state.withJob judged) [⟨judged, .admitted state.nextId⟩] := by
  have hstarts : (state.store.tryStart (state.jobOf judged)).1 = true := by
    rw [Store.tryStart_of_free hfree rfl]
  show bring _ 0 _ (if (state.store.tryStart (state.jobOf judged)).1 then _ else _) = _
  rw [if_pos hstarts]
  rfl

theorem visit_scheduled {id : JobId} {taken : Except Pool.PoolError Unit} {crew : Crew}
    (hsubmit : state.crew.submit (.job id judged.request) = (taken, crew)) :
    (ofState state [⟨judged, .admitted id⟩]).step (.visit 0) =
      ofState (state.withCrew crew) [⟨judged, .scheduled id taken⟩] := by
  have hpool : (ofState state [⟨judged, .admitted id⟩]).pool.submit (.job id judged.request) =
      (taken, crew.relabel Progress.job?) := by
    show (state.crew.relabel Progress.job?).submit _ = _
    rw [submit_relabel, hsubmit]
  show (ofState state [⟨judged, .admitted id⟩]).advance 0 ⟨judged, .admitted id⟩ = _
  simp only [advance, hpool]
  rfl

theorem visit_failed (id : JobId) (error : Pool.PoolError) :
    (ofState state [⟨judged, .unscheduled id error⟩]).step (.visit 0) =
      ofState (state.withStore (state.store.failJob id (unscheduledReason error) state.clock).2)
        [⟨judged, .answered (.error (.atCapacity error id))⟩] :=
  rfl

/-- A visit that is alone to make its moves is answered as `startJob` answers, and leaves behind
what `startJob` leaves behind. -/
theorem run_visit_alone :
    (ofState state [{ judged }]).run (List.replicate 5 (.visit 0)) =
      ofState (startJob state judged).2 [⟨judged, .answered (startJob state judged).1⟩] := by
  have hfive : ∀ (scene : Scene) (move : Move), scene.run (List.replicate 5 move) =
      ((((scene.step move).step move).step move).step move).step move := fun _ _ => rfl
  rw [hfive]
  cases hcurrent : state.store.current with
  | some job =>
      have hholds : (ofState state [{ judged }]).store.current = some job := hcurrent
      simp only [step, advance, startJob, hholds, hcurrent]
      rfl
  | none =>
      rw [visit_unopposed state judged hcurrent, visit_ready,
        visit_admitted state judged hcurrent, startJob_of_free hcurrent]
      cases htaken : (state.withJob judged).crew.submit (.job state.nextId judged.request) with
      | mk taken crew =>
          rw [visit_scheduled _ judged htaken, schedule, htaken]
          cases taken with
          | ok => rfl
          | error error => exact visit_failed _ judged state.nextId error

end Alone

end Scene

/-! ## One task alone -/

/-- What comes of a worker's turn on a job, as far as the store and the job are concerned: the
turn leaves the store alone and the worker in the middle of the job, or it is the end of the
job. -/
inductive JobTurn (id : JobId) (world : World) (turn : WorkTurn) : Prop
  | goesOn (progress : Progress) (pause : Pool.Pause) (hjob : progress.job? = some id)
      (hwaits : turn.waits = some (progress, pause)) (hstore : turn.world.store = world.store)
  | ends (failure : Option String) (hwaits : turn.waits = none)
      (hstore : ∀ context, turn.world.store =
        ((startAndEnd failure).resume (some id) .release context world).world.store)

theorem jobTurn_of_advance {errand : Errand} {world : World} {plan : List Host.Command}
    {cancelled : Bool} {before : List Report} {turn : WorkTurn}
    (hadvance : Advance errand world plan cancelled before turn) :
    JobTurn errand.id world turn := by
  cases hadvance with
  | ends fate script hskipped hblock hsaid hworld hwaits =>
      apply JobTurn.ends fate.failure? hwaits
      intro context
      rw [hworld]
      exact (congrArg World.store (record_eq ..)).symm
  | sticks done stuck further ending pause script hwanted hplan hsaid hworld hwaits =>
      exact .goesOn _ pause rfl hwaits (by rw [hworld])

/-- The first turn on a job is its start, or its start and its end. -/
theorem jobTurn_begin (errand : Errand) (context : Pool.Context) (world : World) :
    JobTurn errand.id world (begin (.job errand.id errand.request) context world) :=
  jobTurn_of_advance (advance_begin errand context world)

/-- A later turn leaves the job as it is, or is its end. -/
theorem jobTurn_goOn (errand : Errand) (stuck : Host.Command) (ending : Ending)
    (further : List Host.Command) (cue : Pool.Cue) (context : Pool.Context) (world : World) :
    JobTurn errand.id world (goOn (.command errand.id stuck ending further) cue context world) := by
  have hplan : stuck :: further = [] ++ stuck :: further := rfl
  exact jobTurn_of_advance (advance_goOn hplan ending cue context world)

end Service

end Upkeep
