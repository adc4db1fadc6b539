/-
# The chronicle of a run

No part of the service keeps the whole story of a job. The slot knows that it runs, the queue or
a worker has its task, the host its commands, and the history how it ended. A chronicle has the
errands in the order of their acceptance: those that are over, each with its fate, and the one
that the pool has now, if it has one. It also has the ledger of the store.

`Tells` says how each part of the service is read off the chronicle. In particular the slot is
taken exactly while the pool has an errand, so that there is only ever one. Every move of the
pool either leaves the chronicle true or takes the errand that the pool has a phase further.
-/

import Upkeep.Proofs.Pool.Turn
import Upkeep.Proofs.Service.Run

namespace Upkeep.Service

/-! ## Errands in the pool -/

/-- The errand that an assignment is, under a ticket. -/
def Assignment.errand? (ticket : Nat) : Assignment → Option Errand
  | .job id request => some ⟨ticket, id, request⟩
  | .occupation => none

/-- A command over which the worker on a job is stuck, and those that are to follow. -/
structure Hold where
  ticket : Nat
  id : JobId
  stuck : Host.Command
  further : List Host.Command

/-- The hold that a worker is in, under a ticket, if it works on a job. -/
def Progress.hold? (ticket : Nat) : Progress → Option Hold
  | .command id stuck _ further => some ⟨ticket, id, stuck, further⟩
  | .occupied => none

/-- The errands in a queue. -/
def queuedErrands (queue : List (Pool.Queued Assignment)) : List Errand :=
  queue.filterMap fun queued => queued.task.errand? queued.ticket

/-- The holds of started tasks. -/
def holds (running : List (Pool.Running Progress)) : List Hold :=
  running.filterMap fun task => task.state.hold? task.ticket

/-- The errands that are in the queue in a phase. -/
def Phase.inQueue : Phase → List Errand
  | .queued errand => [errand]
  | .idle | .underWay .. => []

/-- The holds that there are in a phase. -/
def Phase.holds : Phase → List Hold
  | .underWay errand _ stuck further => [⟨errand.ticket, errand.id, stuck, further⟩]
  | .idle | .queued _ => []

/-- The commands of an errand that is under way are those that its request calls for, and its
context was not cancelled when it began. -/
def Phase.Fits (surroundings : Executor.Surroundings) (crew : Crew) : Phase → Prop
  | .idle | .queued _ => True
  | .underWay errand done stuck further =>
    planned surroundings errand.request = done ++ stuck :: further ∧
      ∃ context, crew.HasStarted errand.ticket context ∧ context.cancelled = false

/-- What the service shows of an errand that is over. It was begun unless its context was
cancelled by then, its commands are from the front of what its request calls for, and its job is
recorded with the right end. -/
structure Closed (surroundings : Executor.Surroundings) (crew : Crew) (ledger : Ledger)
    (errand : Errand) (fate : Fate) : Prop where
  started : ∃ context, crew.HasStarted errand.ticket context ∧
    (fate = .skipped ↔ context.cancelled = true)
  block : fate.block <+: planned surroundings errand.request
  known : ∃ job, ledger.Knows job ∧ job.id = errand.id ∧ job.EndedWith fate.failure?

theorem Closed.mono {surroundings : Executor.Surroundings} {crew crew' : Crew}
    {ledger ledger' : Ledger} {errand : Errand} {fate : Fate}
    (hclosed : Closed surroundings crew ledger errand fate)
    (hstarted : ∀ ticket context, crew.HasStarted ticket context →
      crew'.HasStarted ticket context)
    (hknows : ∀ job, ledger.Knows job → ledger'.Knows job) :
    Closed surroundings crew' ledger' errand fate := by
  obtain ⟨context, hbegun, hfate⟩ := hclosed.started
  obtain ⟨job, hknown, hid, hended⟩ := hclosed.known
  exact ⟨⟨context, hstarted _ _ hbegun, hfate⟩, hclosed.block, job, hknows job hknown, hid, hended⟩

/-- A worker that goes on alone leaves the other holds. -/
theorem holds_filter_of_occupied {running : List (Pool.Running Progress)}
    (hnodup : (running.map (·.ticket)).Nodup) {task : Pool.Running Progress}
    (htask : task ∈ running) (hstate : task.state = .occupied) :
    holds (running.filter (·.ticket ≠ task.ticket)) = holds running := by
  rw [holds, List.filterMap_filter]
  apply List.filterMap_congr
  intro other hother
  split
  · rfl
  next hsame =>
    obtain rfl : other = task :=
      List.inj_on_of_nodup_map hnodup hother htask (by simpa using hsame)
    rw [hstate]
    rfl

/-- The only hold is gone with the worker that was in it. -/
theorem holds_filter_of_eq_singleton {running : List (Pool.Running Progress)} {hold : Hold}
    (hholds : holds running = [hold]) :
    holds (running.filter (·.ticket ≠ hold.ticket)) = [] := by
  rw [List.eq_nil_iff_forall_not_mem]
  intro other hother
  obtain ⟨task, htask, hshown⟩ := List.mem_filterMap.1 hother
  obtain ⟨hmem, hticket⟩ := List.mem_filter.1 htask
  have hsame : other ∈ holds running := List.mem_filterMap.2 ⟨task, hmem, hshown⟩
  rw [hholds, List.mem_singleton] at hsame
  cases hstate : task.state with
  | occupied => simp [hstate, Progress.hold?] at hshown
  | command id stuck ending further =>
      rw [hstate, Progress.hold?, Option.some.injEq] at hshown
      rw [← hsame, ← hshown] at hticket
      simp at hticket

/-- A worker that looks at the clock keeps its hold. -/
theorem holds_ring (crew : Crew) (ticket : Nat) :
    holds (crew.ring ticket).running = holds crew.running := by
  rw [holds, Pool.Machine.ring, List.filterMap_map]
  apply List.filterMap_congr
  intro task _
  rw [Function.comp_apply]
  split <;> rfl

/-! ## Chronicles -/

/-- The story of a run. -/
structure Chronicle where
  ledger : Ledger
  /-- The errands that are over, with what became of them. -/
  past : List (Errand × Fate)
  phase : Phase

namespace Chronicle

/-- All errands, in order of acceptance. -/
def errands (c : Chronicle) : List Errand :=
  c.past.map (·.1) ++ c.phase.errand?.toList

/-- Everything that was reported, in order. -/
def reports (c : Chronicle) : List Report :=
  (c.past.flatMap fun x => x.2.reports x.1) ++ c.phase.reports

/-- A chronicle tells what has happened in the pool. -/
structure Tells (c : Chronicle) (surroundings : Executor.Surroundings) (crew : Crew) :
    Prop where
  tidy : crew.Tidy
  nobody_waits : crew.admitted = [] ∧ crew.waiting = []
  same_surroundings : crew.world.surroundings = surroundings
  kept : c.ledger.Kept
  store : crew.world.store = c.ledger.store
  slot : c.ledger.store.current.map Job.id = c.phase.errand?.map Errand.id
  accepted : (c.errands.map Errand.id).Sublist c.ledger.admitted
  closed : ∀ x ∈ c.past, Closed surroundings crew c.ledger x.1 x.2
  fits : c.phase.Fits surroundings crew
  words : crew.words = c.reports
  queue : queuedErrands crew.queue = c.phase.inQueue
  running : holds crew.running = c.phase.holds

/-- Two chronicles of the same errands. -/
def Agrees (c c' : Chronicle) : Prop :=
  c'.errands = c.errands ∧ c'.ledger.admitted = c.ledger.admitted

variable {surroundings : Executor.Surroundings} {crew crew' : Crew} {c : Chronicle}

/-- The chronicle stays true as long as nothing happens that it tells of. -/
theorem Tells.aside (htells : c.Tells surroundings crew) (htidy : crew'.Tidy)
    (hworld : crew'.world = crew.world)
    (hcallers : crew'.admitted = [] ∧ crew'.waiting = [])
    (hqueue : queuedErrands crew'.queue = queuedErrands crew.queue)
    (hrunning : holds crew'.running = holds crew.running)
    (hwords : crew'.words = crew.words)
    (hstarted : ∀ ticket context, crew.HasStarted ticket context →
      crew'.HasStarted ticket context) : c.Tells surroundings crew' where
  tidy := htidy
  nobody_waits := hcallers
  same_surroundings := hworld ▸ htells.same_surroundings
  kept := htells.kept
  store := hworld ▸ htells.store
  slot := htells.slot
  accepted := htells.accepted
  closed x hx := (htells.closed x hx).mono hstarted fun _ hknows => hknows
  fits := by
    have hfits := htells.fits
    cases hphase : c.phase with
    | idle | queued => trivial
    | underWay errand done stuck further =>
        rw [hphase] at hfits
        obtain ⟨hplan, context, hbegun, hwanted⟩ := hfits
        exact ⟨hplan, context, hstarted _ _ hbegun, hwanted⟩
  words := hwords.trans htells.words
  queue := hqueue.trans htells.queue
  running := hrunning.trans htells.running

section Turns

variable {errand : Errand} {queue : List (Pool.Queued Assignment)}
  {others : List (Pool.Running Progress)} {turn : WorkTurn} {context : Pool.Context}

/-- The chronicle in which the errand that the pool has is over. -/
def close (c : Chronicle) (errand : Errand) (fate : Fate) (now : Timestamp) : Chronicle :=
  ⟨c.ledger.enter (.conclude errand.id fate.failure?, now), c.past ++ [(errand, fate)], .idle⟩

/-- A last turn closes the errand that the pool has. -/
theorem Tells.close (htells : c.Tells surroundings crew)
    (hphase : c.phase.errand? = some errand)
    (hturned : Pool.Machine.Turned crew queue others errand.ticket turn crew')
    (htidy : crew'.Tidy) (hqueue : queuedErrands queue = []) (hothers : holds others = [])
    (hstarted : crew'.HasStarted errand.ticket context) {fate : Fate} {script : List Play}
    (hskipped : fate = .skipped ↔ context.cancelled = true)
    (hblock : fate.block <+: planned surroundings errand.request)
    (hsaid : c.phase.reports ++ turn.said = fate.reports errand)
    (hworld : turn.world = { crew.world with
      store := crew.world.store.apply (.conclude errand.id fate.failure?) crew.world.clock,
      script })
    (hwaits : turn.waits = none) :
    (c.close errand fate crew.world.clock).Tells surroundings crew' ∧
      c.Agrees (c.close errand fate crew.world.clock) := by
  have hslot : c.ledger.store.current.map Job.id = some errand.id := by
    rw [htells.slot, hphase]
    rfl
  obtain ⟨hfree, hadmitted, hknown⟩ :=
    htells.kept.balanced.enter_conclude hslot fate.failure? crew.world.clock
  have herrands : (c.close errand fate crew.world.clock).errands = c.errands := by
    rw [errands, errands, hphase]
    simp [Chronicle.close, Phase.errand?]
  obtain ⟨deadline, rung, place, hrunning⟩ := hturned.running
  refine ⟨?_, herrands, hadmitted⟩
  exact {
    tidy := htidy
    nobody_waits := by
      rw [hturned.admitted, hturned.waiting]
      exact htells.nobody_waits
    same_surroundings := by
      rw [hturned.world, hworld]
      exact htells.same_surroundings
    kept := htells.kept.enter _
    store := by
      rw [hturned.world, hworld]
      exact congrArg (Store.apply · _ _) htells.store
    slot := congrArg (Option.map Job.id) hfree
    accepted := by
      rw [herrands]
      exact hadmitted ▸ htells.accepted
    closed := by
      intro x hx
      rcases List.mem_append.1 hx with hold | hnew
      · exact (htells.closed x hold).mono hturned.started
          fun job hknows => hknows.enter htells.kept.balanced _
      · rw [List.mem_singleton] at hnew
        rw [hnew]
        exact ⟨⟨context, hstarted, hskipped⟩, hblock, hknown⟩
    fits := trivial
    words := by
      rw [hturned.words, htells.words, reports, List.append_assoc, hsaid]
      simp [Chronicle.close, reports, Phase.reports]
    queue := by
      rw [hturned.queue, hqueue]
      rfl
    running := by
      rw [hrunning, Pool.Machine.paused, hwaits]
      simpa [Chronicle.close, Phase.holds] using hothers }

/-- A turn after which a command is stuck leaves the errand that the pool has under way. -/
theorem Tells.hold (htells : c.Tells surroundings crew)
    (hphase : c.phase.errand? = some errand)
    (hturned : Pool.Machine.Turned crew queue others errand.ticket turn crew')
    (htidy : crew'.Tidy) (hqueue : queuedErrands queue = []) (hothers : holds others = [])
    (hstarted : crew'.HasStarted errand.ticket context) (hwanted : context.cancelled = false)
    {done : List Host.Command} {stuck : Host.Command} {further : List Host.Command}
    {ending : Ending} {pause : Pool.Pause} {script : List Play}
    (hplan : planned surroundings errand.request = done ++ stuck :: further)
    (hsaid : c.phase.reports ++ turn.said = (Phase.underWay errand done stuck further).reports)
    (hworld : turn.world = { crew.world with script })
    (hwaits : turn.waits = some (.command errand.id stuck ending further, pause)) :
    { c with phase := .underWay errand done stuck further }.Tells surroundings crew' ∧
      c.Agrees { c with phase := .underWay errand done stuck further } := by
  have herrands : errands { c with phase := .underWay errand done stuck further } =
      c.errands := by
    rw [errands, errands, hphase]
    rfl
  obtain ⟨deadline, rung, place, hrunning⟩ := hturned.running
  refine ⟨?_, herrands, rfl⟩
  exact {
    tidy := htidy
    nobody_waits := by
      rw [hturned.admitted, hturned.waiting]
      exact htells.nobody_waits
    same_surroundings := by
      rw [hturned.world, hworld]
      exact htells.same_surroundings
    kept := htells.kept
    store := by
      rw [hturned.world, hworld]
      exact htells.store
    slot := htells.slot.trans (congrArg (Option.map Errand.id) hphase)
    accepted := herrands ▸ htells.accepted
    closed := fun x hx => (htells.closed x hx).mono hturned.started fun _ hknows => hknows
    fits := ⟨hplan, context, hstarted, hwanted⟩
    words := by
      rw [hturned.words, htells.words, reports, List.append_assoc, hsaid]
      rfl
    queue := by
      rw [hturned.queue, hqueue]
      rfl
    running := by
      rw [hrunning, holds, List.filterMap_append]
      rw [holds] at hothers
      rw [hothers, Pool.Machine.paused, hwaits]
      rfl }

/-- A turn of the worker on the errand that the pool has takes the chronicle on. -/
theorem Tells.advance (htells : c.Tells surroundings crew)
    (hphase : c.phase.errand? = some errand)
    (hturned : Pool.Machine.Turned crew queue others errand.ticket turn crew')
    (htidy : crew'.Tidy) (hqueue : queuedErrands queue = []) (hothers : holds others = [])
    (hstarted : crew'.HasStarted errand.ticket context)
    (hadvance : Advance errand crew.world (planned surroundings errand.request)
      context.cancelled c.phase.reports turn) :
    ∃ c' : Chronicle, c'.Tells surroundings crew' ∧ c.Agrees c' := by
  cases hadvance with
  | ends fate script hskipped hblock hsaid hworld hwaits =>
      exact ⟨_, htells.close hphase hturned htidy hqueue hothers hstarted hskipped hblock hsaid
        hworld hwaits⟩
  | sticks done stuck further ending pause script hwanted hplan hsaid hworld hwaits =>
      exact ⟨_, htells.hold hphase hturned htidy hqueue hothers hstarted hwanted hplan hsaid
        hworld hwaits⟩

end Turns

/-- A turn of a worker that is only kept busy is nothing that a chronicle tells of. -/
theorem Tells.aside_of_turned (htells : c.Tells surroundings crew)
    {queue : List (Pool.Queued Assignment)} {others : List (Pool.Running Progress)}
    {ticket : Nat} {turn : WorkTurn}
    (hturned : Pool.Machine.Turned crew queue others ticket turn crew') (htidy : crew'.Tidy)
    (hworld : turn.world = crew.world) (hsaid : turn.said = [])
    (hwaits : ∀ wait ∈ turn.waits, wait.1 = .occupied)
    (hqueue : queuedErrands queue = queuedErrands crew.queue)
    (hothers : holds others = holds crew.running) : c.Tells surroundings crew' := by
  refine htells.aside htidy (hturned.world.trans hworld) ?_ ?_ ?_ ?_ hturned.started
  · rw [hturned.admitted, hturned.waiting]
    exact htells.nobody_waits
  · rw [hturned.queue, hqueue]
  · obtain ⟨deadline, rung, place, hrunning⟩ := hturned.running
    have hpaused : holds (Pool.Machine.paused ticket deadline rung place turn) = [] := by
      unfold Pool.Machine.paused
      cases hturn : turn.waits with
      | none => rfl
      | some wait =>
          obtain ⟨progress, pause⟩ := wait
          obtain rfl : progress = .occupied := hwaits _ hturn
          rfl
    rw [hrunning, holds, List.filterMap_append]
    show holds others ++ holds _ = _
    rw [hpaused, hothers, List.append_nil]
  · rw [hturned.words, hsaid, List.append_nil]

theorem begin_occupation (context : Pool.Context) (world : World) :
    (begin .occupation context world).world = world ∧
      (begin .occupation context world).said = [] ∧
      ∀ wait ∈ (begin .occupation context world).waits, wait.1 = .occupied := by
  simp only [begin]
  split
  · refine ⟨rfl, rfl, ?_⟩
    intro wait hwait
    cases hwait
  · refine ⟨rfl, rfl, ?_⟩
    intro wait hwait
    cases hwait
    rfl

/-- The chronicle goes on when a worker takes up a task. -/
theorem Tells.launch (htells : c.Tells surroundings crew) {first : Pool.Queued Assignment}
    {rest : List (Pool.Queued Assignment)} (hqueue : crew.queue = first :: rest)
    (hidle : crew.hasIdleWorker = true) :
    ∃ c' : Chronicle, c'.Tells surroundings ((crew.vacate rest).launch work first) ∧
      c.Agrees c' := by
  have htidy := htells.tidy.work (.launch (b := work) hqueue hidle rfl)
  obtain ⟨hturned, hstarted⟩ :=
    Pool.Machine.turned_launch work first rest htells.nobody_waits.2
  have hshown := htells.queue
  rw [hqueue, queuedErrands, List.filterMap_cons] at hshown
  cases htask : first.task with
  | occupation =>
      rw [htask] at hturned hshown
      obtain ⟨hworld, hsaid, hwaits⟩ := begin_occupation _ crew.world
      exact ⟨c, htells.aside_of_turned hturned htidy hworld hsaid hwaits
        (hshown.trans htells.queue.symm) rfl, rfl, rfl⟩
  | job id request =>
      rw [htask] at hturned hshown
      cases hphase : c.phase with
      | idle | underWay =>
          rw [hphase] at hshown
          cases hshown
      | queued errand =>
          rw [hphase] at hshown
          obtain ⟨rfl, hrest⟩ := List.cons.inj hshown
          have hadvance := advance_begin ⟨first.ticket, id, request⟩
            (crew.context crew.deadline (crew.ringsFirst first.ticket)) crew.world
          rw [htells.same_surroundings] at hadvance
          refine htells.advance (by rw [hphase]; rfl) hturned htidy hrest ?_ hstarted ?_
          · rw [htells.running, hphase]
            rfl
          · rw [hphase]
            exact hadvance

/-- The chronicle goes on when a started task gets a turn. -/
theorem Tells.resume (htells : c.Tells surroundings crew) {task : Pool.Running Progress}
    {cue : Pool.Cue} (htask : task ∈ crew.running) (hcue : crew.Heeds task cue) :
    ∃ c' : Chronicle, c'.Tells surroundings (crew.resume work task cue) ∧ c.Agrees c' := by
  have htidy := htells.tidy.work (.resume (b := work) htask hcue)
  have hturned := Pool.Machine.turned_resume work crew task cue
  cases hstate : task.state with
  | occupied =>
      rw [hstate] at hturned
      have hnodup := htells.tidy.nodup_running
      exact ⟨c, htells.aside_of_turned hturned htidy rfl rfl nofun rfl
        (holds_filter_of_occupied hnodup htask hstate), rfl, rfl⟩
  | command id stuck ending further =>
      rw [hstate] at hturned
      have hmem : ⟨task.ticket, id, stuck, further⟩ ∈ holds crew.running :=
        List.mem_filterMap.2 ⟨task, htask, by rw [hstate]; rfl⟩
      have hfits := htells.fits
      have hshown := htells.queue
      rw [htells.running] at hmem
      cases hphase : c.phase with
      | idle | queued =>
          rw [hphase] at hmem
          cases hmem
      | underWay errand done stuck' further' =>
          rw [hphase] at hmem hfits hshown
          obtain ⟨hplan, context, hbegun, hwanted⟩ := hfits
          obtain ⟨hticket, rfl, rfl, rfl⟩ := Hold.mk.inj (List.mem_singleton.1 hmem)
          rw [hticket] at hturned
          have hholds := htells.running
          rw [hphase] at hholds
          refine htells.advance (by rw [hphase]; rfl) hturned htidy hshown
            (holds_filter_of_eq_singleton hholds) (hturned.started _ _ hbegun) ?_
          rw [hphase, hwanted]
          exact advance_goOn hplan ending cue _ crew.world

/-- A note in the log that is not a word of a task is nothing that a chronicle tells of. -/
theorem Tells.aside_of_log (htells : c.Tells surroundings crew) (htidy : crew'.Tidy)
    (hworld : crew'.world = crew.world)
    (hcallers : crew'.admitted = [] ∧ crew'.waiting = []) (hqueue : crew'.queue = crew.queue)
    (hrunning : crew'.running = crew.running) (events : List (Pool.Event Report))
    (hlog : crew'.log = crew.log ++ events.map fun event => ⟨crew.now, event⟩)
    (hwords : ∀ event ∈ events, event.word? = none) : c.Tells surroundings crew' := by
  refine htells.aside htidy hworld hcallers (by rw [hqueue]) (by rw [hrunning]) ?_ ?_
  · rw [Pool.Machine.words_of_log_eq hlog, List.filterMap_eq_nil_iff.2 hwords, List.append_nil]
  · exact fun _ _ hstarted => hstarted.of_prefix (hlog ▸ List.prefix_append ..)

/-- The chronicle goes on with whatever workers and callers do. -/
theorem Tells.worked (htells : c.Tells surroundings crew)
    (hwork : Pool.Machine.Work work crew crew') :
    ∃ c' : Chronicle, c'.Tells surroundings crew' ∧ c.Agrees c' := by
  have htidy := htells.tidy.work hwork
  have hnobody := htells.nobody_waits
  cases hwork with
  | launch hqueue hidle => exact htells.launch hqueue hidle
  | crash _ _ hcall => cases hcall
  | resume htask hcue => exact htells.resume htask hcue
  | ring ticket =>
      exact ⟨c, htells.aside htidy rfl hnobody rfl (holds_ring crew ticket) rfl
        fun _ _ hstarted => hstarted, rfl, rfl⟩
  | enterAll =>
      rw [Pool.Machine.enterAll_eq, hnobody.1] at htidy ⊢
      exact ⟨c, htells.aside_of_log htidy rfl ⟨rfl, hnobody.2⟩ (List.append_nil _) rfl []
        rfl nofun, rfl, rfl⟩
  | callerTurn hcaller =>
      rw [hnobody.1, hnobody.2] at hcaller
      cases hcaller

/-- The chronicle goes on with every change in the pool. -/
theorem Tells.change (htells : c.Tells surroundings crew)
    (hchange : Pool.Machine.Change work crew crew') :
    ∃ c' : Chronicle, c'.Tells surroundings crew' ∧ c.Agrees c' := by
  have htidy := htells.tidy.change hchange
  have hnobody := htells.nobody_waits
  cases hchange with
  | step hstep =>
      cases hstep with
      | work hwork => exact htells.worked hwork
      | finishClosing hdrained =>
          exact ⟨c, htells.aside_of_log htidy rfl hnobody rfl rfl [.closed (.ok ())] rfl
            (by simp [Pool.Event.word?]), rfl, rfl⟩
      | giveUp =>
          exact ⟨c, htells.aside_of_log htidy rfl hnobody rfl rfl
            [.closed (.error .shutdownTimeout)] rfl (by simp [Pool.Event.word?]), rfl, rfl⟩
  | clock instant =>
      exact ⟨c, htells.aside_of_log htidy rfl hnobody rfl rfl [] (List.append_nil _).symm nofun,
        rfl, rfl⟩
  | shut =>
      rw [Pool.Machine.shut_eq, hnobody.1, hnobody.2] at htidy ⊢
      exact ⟨c, htells.aside_of_log htidy rfl ⟨rfl, rfl⟩ rfl rfl [] rfl nofun, rfl, rfl⟩
  | await closing nextPlace =>
      exact ⟨c, htells.aside_of_log htidy rfl hnobody rfl rfl [] (List.append_nil _).symm nofun,
        rfl, rfl⟩
  | closed =>
      exact ⟨c, htells.aside_of_log htidy rfl hnobody rfl rfl [.closed (.ok ())] rfl
        (by simp [Pool.Event.word?]), rfl, rfl⟩

/-- The chronicle goes on with every move between two messages. -/
theorem Tells.move (htells : c.Tells surroundings crew) (hmove : Move crew crew') :
    ∃ c' : Chronicle, c'.Tells surroundings crew' ∧ c.Agrees c' := by
  cases hmove with
  | change hchange => exact htells.change hchange
  | clock reading =>
      refine ⟨c, ?_, rfl, rfl⟩
      exact { htells with
        tidy := { htells.tidy with }
        closed := fun x hx => (htells.closed x hx).mono (fun _ _ hstarted => hstarted)
          fun _ hknows => hknows }
  | sweep now =>
      let deed : Store.Deed := (.sweep Store.defaultMaxAge, now)
      have hadmitted : (c.ledger.enter deed).admitted = c.ledger.admitted := List.append_nil _
      refine ⟨{ c with ledger := c.ledger.enter deed }, ?_, rfl, hadmitted⟩
      exact { htells with
        tidy := { htells.tidy with }
        kept := htells.kept.enter deed
        store := congrArg (Store.sweep · Store.defaultMaxAge now) htells.store
        accepted := hadmitted.symm ▸ htells.accepted
        closed := fun x hx => (htells.closed x hx).mono (fun _ _ hstarted => hstarted)
          fun job hknows => hknows.enter htells.kept.balanced deed }

theorem Agrees.trans {c c' c'' : Chronicle} (h : c.Agrees c') (h' : c'.Agrees c'') :
    c.Agrees c'' :=
  ⟨h'.1.trans h.1, h'.2.trans h.2⟩

theorem Tells.moves (htells : c.Tells surroundings crew) (hmoves : Moves crew crew') :
    ∃ c' : Chronicle, c'.Tells surroundings crew' ∧ c.Agrees c' := by
  induction hmoves with
  | refl => exact ⟨c, htells, rfl, rfl⟩
  | tail _ hmove ih =>
      obtain ⟨between, htells', hagrees⟩ := ih
      obtain ⟨after, htells'', hagrees'⟩ := htells'.move hmove
      exact ⟨after, htells'', hagrees.trans hagrees'⟩

end Chronicle

end Upkeep.Service
