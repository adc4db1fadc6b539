/-
# Every run has a chronicle

A run is recounted by a chronicle: it tells what has happened in the pool, and the jobs that its
ledger has admitted are those whose identifiers were drawn. An accepted action adds one errand
at the end of the chronicle, which the pool then has; an action that the pool does not take adds
none, and its job has failed already when it is answered. So after any run there is a chronicle
of exactly the errands of the run, in their order.
-/

import Upkeep.Proofs.Service.Accounts
import Upkeep.Proofs.Service.Chronicle

namespace Upkeep.Service

namespace Chronicle

/-- A chronicle recounts how the service came from its start to its state. -/
structure Recounts (c : Chronicle) (start : Start) (state : State) : Prop where
  same_setup : state.setup = start.setup
  tells : c.Tells start.surroundings state.crew
  drawn : c.ledger.admitted = state.drawnIds

variable {start : Start} {state : State} {c : Chronicle}

theorem Recounts.goesOn (hrecounts : c.Recounts start state) {after : State}
    (hgoes : GoesOn state after) :
    ∃ c' : Chronicle, c'.Recounts start after ∧ c'.errands = c.errands := by
  obtain ⟨c', htells, herrands, hadmitted⟩ := hrecounts.tells.moves hgoes.moves
  refine ⟨c', ⟨hgoes.setup.trans hrecounts.same_setup, htells, ?_⟩, herrands⟩
  rw [hadmitted, hrecounts.drawn, State.drawnIds, State.drawnIds, hgoes.setup, hgoes.drawn]

theorem Recounts.accounts (hrecounts : c.Recounts start state) : AccountsFor c.ledger state :=
  ⟨hrecounts.tells.kept, hrecounts.tells.store, hrecounts.drawn⟩

/-- As long as the slot is free, the pool has no errand. -/
theorem Tells.idle_of_free {surroundings : Executor.Surroundings} {crew : Crew}
    (htells : c.Tells surroundings crew)
    (hfree : crew.world.store.current = none) : c.phase = .idle := by
  have hslot := htells.slot
  rw [← htells.store, hfree] at hslot
  cases hphase : c.phase with
  | idle => rfl
  | queued | underWay =>
      rw [hphase] at hslot
      cases hslot

/-- A job that is started in a free slot is written down as admitted, under the identifier that
was drawn for it. -/
theorem Recounts.admit (hrecounts : c.Recounts start state) (judged : Judged)
    (hfree : state.store.current = none) :
    ∃ ledger : Ledger, ledger.Kept ∧ (state.withJob judged).store = ledger.store ∧
      ledger.store.current.map Job.id = some state.nextId ∧
      ledger.admitted = c.ledger.admitted ++ [state.nextId] ∧
      ledger.admitted = (state.withJob judged).drawnIds ∧
      ∀ job, c.ledger.Knows job → ledger.Knows job := by
  have hentered := Ledger.enter_tryStart_of_free (hrecounts.accounts.store ▸ hfree)
    (rfl : (state.jobOf judged).status = .pending) state.clock
  obtain ⟨hkept, hstore, hdrawn⟩ := hrecounts.accounts.withJob judged hfree
  exact ⟨_, hkept, hstore, congrArg (fun ledger => ledger.store.current.map Job.id) hentered,
    congrArg Ledger.admitted hentered, hdrawn,
    fun job hknows => hknows.enter hrecounts.tells.kept.balanced _⟩

/-- An accepted action adds an errand to the chronicle. -/
theorem Recounts.accept (hrecounts : c.Recounts start state) (judged : Judged)
    (hfree : state.store.current = none) :
    ∃ c' : Chronicle, c'.Recounts start (state.accept judged) ∧
      c'.errands = c.errands ++ [⟨state.crew.nextTicket, state.nextId, judged.request⟩] := by
  obtain ⟨ledger, hkept, hstore, hslot, hadmitted, hdrawn, hknows⟩ :=
    hrecounts.admit judged hfree
  have htells := hrecounts.tells
  have hidle := htells.idle_of_free hfree
  let errand : Errand := ⟨state.crew.nextTicket, state.nextId, judged.request⟩
  let c' : Chronicle := ⟨ledger, c.past, .queued errand⟩
  have herrands : c'.errands = c.errands ++ [errand] := by
    rw [errands, errands, hidle]
    simp [c', Phase.errand?]
  have hlog : (state.accept judged).crew.log =
      state.crew.log ++ [⟨state.crew.now, .accepted state.crew.nextTicket⟩] := rfl
  have htidy : (state.withJob judged).crew.Tidy := { htells.tidy with }
  refine ⟨c', ⟨hrecounts.same_setup, ?_, hdrawn⟩, herrands⟩
  exact {
    tidy := htidy.enqueue_ticketed (.job state.nextId judged.request)
    nobody_waits := htells.nobody_waits
    same_surroundings := htells.same_surroundings
    kept := hkept
    store := hstore
    slot := hslot
    accepted := by
      rw [herrands, hadmitted, List.map_append]
      exact htells.accepted.append_right [state.nextId]
    closed := fun x hx => (htells.closed x hx).mono
      (fun _ _ hstarted => hstarted.of_prefix (hlog ▸ List.prefix_append ..)) hknows
    fits := trivial
    words := by
      rw [Pool.Machine.words_eq_of_log hlog rfl, htells.words, reports, reports, hidle]
      rfl
    queue := by
      have hqueue := htells.queue
      rw [hidle] at hqueue
      show queuedErrands (state.crew.queue ++ [_]) = _
      rw [queuedErrands, List.filterMap_append]
      exact congrArg (· ++ [errand]) hqueue
    running := htells.running.trans (by rw [hidle]; rfl) }

/-- An action that the pool does not take adds nothing to the chronicle but a failed job. -/
theorem Recounts.reject (hrecounts : c.Recounts start state) (judged : Judged)
    (error : Pool.PoolError) (hfree : state.store.current = none) :
    ∃ c' : Chronicle, c'.Recounts start (state.reject judged error) ∧
      c'.errands = c.errands := by
  obtain ⟨ledger, hkept, hstore, hslot, hadmitted, hdrawn, hknows⟩ :=
    hrecounts.admit judged hfree
  have htells := hrecounts.tells
  have hidle := htells.idle_of_free hfree
  let failure := unscheduledReason error
  let deed : Store.Deed := (.conclude state.nextId (some failure), state.clock)
  let c' : Chronicle := { c with ledger := ledger.enter deed }
  obtain ⟨hfreed, hsame, -⟩ := hkept.balanced.enter_conclude hslot (some failure) state.clock
  have hlog : (state.reject judged error).crew.log =
      state.crew.log ++ [⟨state.crew.now, .refused state.crew.nextTicket error⟩] := rfl
  have htidy : (state.withJob judged).crew.Tidy := { htells.tidy with }
  have hrefused : ((state.withJob judged).crew.ticketed.note
      (.refused state.crew.nextTicket error)).Tidy := htidy.ticketed.note rfl
  refine ⟨c', ⟨hrecounts.same_setup, ?_, hsame.trans hdrawn⟩, rfl⟩
  exact {
    tidy := { hrefused with }
    nobody_waits := htells.nobody_waits
    same_surroundings := htells.same_surroundings
    kept := hkept.enter deed
    store := congrArg (Store.apply · deed.1 deed.2) hstore
    slot := by
      rw [hidle]
      exact congrArg (Option.map Job.id) hfreed
    accepted := by
      show List.Sublist _ (ledger.enter deed).admitted
      rw [hsame, hadmitted]
      exact htells.accepted.trans (List.sublist_append_left ..)
    closed := fun x hx => (htells.closed x hx).mono
      (fun _ _ hstarted => hstarted.of_prefix (hlog ▸ List.prefix_append ..))
      fun job hknown => (hknows job hknown).enter hkept.balanced deed
    fits := by
      rw [hidle]
      trivial
    words := (Pool.Machine.words_eq_of_log hlog rfl).trans htells.words
    queue := htells.queue
    running := htells.running }

/-- However a request is answered, the errand that comes of it is added to the chronicle. -/
theorem Recounts.reply (hrecounts : c.Recounts start state) {message : Http.Request}
    {response : Http.Response} {after : State} (hreply : Reply state message response after) :
    ∃ c' : Chronicle, c'.Recounts start after ∧
      c'.errands = c.errands ++ (state.errandOf? ⟨message, response⟩).toList := by
  cases hreply with
  | plain limiter hstatus hrefused =>
      refine ⟨c, ⟨hrecounts.same_setup, hrecounts.tells, hrecounts.drawn⟩, ?_⟩
      rw [state.errandOf?_of_refused hrefused]
      exact (List.append_nil _).symm
  | accepted limiter judged limit hasks hrequest haction hfree hopen hroom =>
      have hcounted : c.Recounts start { state with limiter } :=
        ⟨hrecounts.same_setup, hrecounts.tells, hrecounts.drawn⟩
      obtain ⟨c', hrecounts', herrands⟩ := hcounted.accept judged hfree
      have hstatus : ((acceptance state.nextId judged.action).withHeader limitHeader limit).status =
          .accepted := status_acceptance ..
      refine ⟨c', hrecounts', ?_⟩
      rw [State.errandOf?_eq_some state hasks hstatus hrequest]
      exact herrands
  | rejected limiter judged error hfree herror hstatus =>
      have hcounted : c.Recounts start { state with limiter } :=
        ⟨hrecounts.same_setup, hrecounts.tells, hrecounts.drawn⟩
      obtain ⟨c', hrecounts', herrands⟩ := hcounted.reject judged error hfree
      refine ⟨c', hrecounts', ?_⟩
      rw [state.errandOf?_of_refused fun _ => by rw [hstatus]; nofun]
      exact herrands.trans (List.append_nil _).symm

/-- Keeping a worker busy is nothing that a chronicle tells of. -/
theorem Recounts.occupy (hrecounts : c.Recounts start state) :
    c.Recounts start (state.meet .occupy) := by
  have htells := hrecounts.tells
  have htidy : (state.meet .occupy).crew.Tidy := htells.tidy.submit .occupation
  refine ⟨hrecounts.same_setup, ?_, hrecounts.drawn⟩
  show c.Tells start.surroundings (state.crew.submit .occupation).2
  obtain ⟨-, -, hsubmit⟩ | ⟨error, -, hsubmit⟩ := state.crew.submit_cases .occupation
  · have hqueue : queuedErrands (state.crew.queue ++ [⟨state.crew.nextTicket, .occupation⟩]) =
        queuedErrands state.crew.queue := by
      rw [queuedErrands, List.filterMap_append]
      exact List.append_nil _
    rw [State.meet, State.withCrew, hsubmit] at htidy
    rw [hsubmit]
    exact htells.aside htidy rfl htells.nobody_waits hqueue rfl
      (Pool.Machine.words_eq_of_log rfl rfl)
      fun _ _ hstarted => hstarted.of_prefix (List.prefix_append ..)
  · rw [State.meet, State.withCrew, hsubmit] at htidy
    rw [hsubmit]
    exact htells.aside htidy rfl htells.nobody_waits rfl rfl
      (Pool.Machine.words_eq_of_log rfl rfl)
      fun _ _ hstarted => hstarted.of_prefix (List.prefix_append ..)

/-- The errand that comes of a stimulus is added to the chronicle at once. -/
theorem Recounts.meet (hrecounts : c.Recounts start state) (stimulus : Stimulus) :
    ∃ c' : Chronicle, c'.Recounts start (state.meet stimulus) ∧
      c'.errands = c.errands ++ (state.errand? stimulus).toList := by
  cases stimulus with
  | message message => exact hrecounts.reply (reply_answer state message)
  | occupy => exact ⟨c, hrecounts.occupy, (List.append_nil _).symm⟩
  | elapse | release | closePool | setClock =>
      exact ⟨c, hrecounts, (List.append_nil _).symm⟩

/-- The chronicle goes on with every stimulus. -/
theorem Recounts.respond (hrecounts : c.Recounts start state) (stimulus : Stimulus) :
    ∃ c' : Chronicle, c'.Recounts start (state.respond stimulus) ∧
      c'.errands = c.errands ++ (state.errand? stimulus).toList := by
  obtain ⟨met, hmet, herrands⟩ := hrecounts.meet stimulus
  obtain ⟨c', hrecounts', hsame⟩ := hmet.goesOn (State.goesOn_respond stimulus hmet.tells.tidy)
  exact ⟨c', hrecounts', hsame.trans herrands⟩

/-- After a run there is a chronicle to which all errands of the run have been added. -/
theorem Recounts.run (hrecounts : c.Recounts start state) (stimuli : List Stimulus) :
    ∃ c' : Chronicle, c'.Recounts start (state.run stimuli) ∧
      c'.errands = c.errands ++ state.errands stimuli := by
  induction stimuli generalizing state c with
  | nil => exact ⟨c, hrecounts, (List.append_nil _).symm⟩
  | cons stimulus stimuli ih =>
      obtain ⟨between, hrecounts', hfirst⟩ := hrecounts.respond stimulus
      obtain ⟨c', hrecounts'', hrest⟩ := ih hrecounts'
      refine ⟨c', hrecounts'', ?_⟩
      rw [hrest, hfirst, List.append_assoc]
      rfl

/-- A chronicle of a service at its start is empty. -/
theorem recounts_start (start : Start) :
    Recounts ⟨.blank start.maxHistory, [], .idle⟩ start start.state where
  same_setup := rfl
  tells := {
    tidy := State.tidy_start start
    nobody_waits := ⟨rfl, rfl⟩
    same_surroundings := rfl
    kept := ⟨start.maxHistory, [], rfl⟩
    store := rfl
    slot := rfl
    accepted := List.nil_sublist _
    closed := nofun
    fits := trivial
    words := rfl
    queue := rfl
    running := rfl }
  drawn := rfl

end Chronicle

/-- After every run from the start there is a chronicle of the errands of the run. -/
theorem exists_chronicle (start : Start) (stimuli : List Stimulus) :
    ∃ c : Chronicle, c.Recounts start (start.state.run stimuli) ∧
      c.errands = start.state.errands stimuli :=
  (Chronicle.recounts_start start).run stimuli

/-- A supply that never repeats itself draws distinct identifiers in every run. -/
theorem nodup_drawnIds (start : Start) (hsupply : Function.Injective start.setup.supply)
    (stimuli : List Stimulus) : (start.state.run stimuli).drawnIds.Nodup := by
  obtain ⟨c, hrecounts, -⟩ := exists_chronicle start stimuli
  rw [State.drawnIds, hrecounts.same_setup]
  exact List.nodup_range.map hsupply

end Upkeep.Service
