/-
# The ledger of the service

The service keeps no books beyond its store, but everything that it does to the store is an
operation that a ledger could enter: an accepted request starts a job, a turn of a worker ends
one, the sweeps drop what is old, and nothing else comes near it. So there is a ledger of the
service at any time, and whatever happens next, the same ledger is continued. What a ledger
never forgets is then never forgotten by the service either.
-/

import Upkeep.Proofs.Service.Run
import Upkeep.Proofs.Store.Growth

namespace Upkeep.Service

/-! ## What moves do to the store -/

/-- What can happen to a store apart from the start of a job. -/
inductive Wanes (store : Store) : Store → Prop
  | same : Wanes store store
  | conclude (id : JobId) (failure : Option String) (now : Timestamp) :
      Wanes store (store.apply (.conclude id failure) now)
  | sweep (maxAge : Nat) (now : Timestamp) : Wanes store (store.sweep maxAge now)

theorem Wanes.of_advance {errand : Errand} {world : World} {plan : List Host.Command}
    {cancelled : Bool} {before : List Report} {turn : WorkTurn}
    (hadvance : Advance errand world plan cancelled before turn) :
    Wanes world.store turn.world.store := by
  cases hadvance with
  | ends fate script hskipped hblock hsaid hworld hwaits =>
      rw [hworld]
      exact .conclude ..
  | sticks done stuck further ending pause script hwanted hplan hsaid hworld hwaits =>
      rw [hworld]
      exact .same

theorem wanes_begin (assignment : Assignment) (context : Pool.Context) (world : World) :
    Wanes world.store (begin assignment context world).world.store := by
  cases assignment with
  | job id request => exact .of_advance (advance_begin ⟨0, id, request⟩ context world)
  | occupation =>
      simp only [begin]
      split <;> exact .same

theorem wanes_goOn (progress : Progress) (cue : Pool.Cue) (context : Pool.Context)
    (world : World) : Wanes world.store (goOn progress cue context world).world.store := by
  cases progress with
  | occupied => exact .same
  | command id stuck ending further =>
      -- Which request the command belongs to is of no matter to the store.
      let errand : Errand := ⟨0, id, ⟨"", none, none, 0⟩⟩
      have hadvance : Advance errand world ([] ++ stuck :: further) false
          (Phase.underWay errand [] stuck further).reports
          (goOn (.command id stuck ending further) cue context world) :=
        advance_goOn rfl ending cue context world
      exact .of_advance hadvance

/-- No move between two messages starts a job. -/
theorem wanes_of_move {crew crew' : Crew} (hmove : Move crew crew') :
    Wanes crew.world.store crew'.world.store := by
  cases hmove with
  | clock => exact .same
  | sweep now => exact .sweep ..
  | change hchange =>
      cases hchange with
      | step hstep =>
          cases hstep with
          | work hwork =>
              cases hwork with
              | @launch first rest =>
                  obtain ⟨ownPlace, nextPlace, heq⟩ :=
                    crew.firstTurn_vacate_eq rest first.ticket _ _
                  rw [Pool.Machine.launch_eq, heq]
                  exact wanes_begin first.task _ _
              | crash _ _ hcall => cases hcall
              | @resume task cue =>
                  obtain ⟨ownPlace, nextPlace, heq⟩ := crew.resume_eq work task cue
                  rw [heq]
                  exact wanes_goOn task.state cue _ crew.world
              | ring => exact .same
              | enterAll =>
                  rw [Pool.Machine.enterAll_eq]
                  exact .same
              | callerTurn =>
                  unfold Pool.Machine.callerTurn
                  split
                  · exact .same
                  · split <;> exact .same
          | finishClosing | giveUp => exact .same
      | clock | await | closed => exact .same
      | shut =>
          rw [Pool.Machine.shut_eq]
          exact .same

/-- What happens to a store apart from starts is entered into its ledger without an admission. -/
theorem Wanes.exists_grown {ledger : Ledger} {store : Store} (hwanes : Wanes ledger.store store) :
    ∃ later, ledger.GrowsInto later ∧ later.store = store ∧ later.admitted = ledger.admitted := by
  cases hwanes with
  | same => exact ⟨ledger, .refl ledger, rfl, rfl⟩
  | conclude id failure now =>
      refine ⟨ledger.enter (.conclude id failure, now), .enter .., rfl, ?_⟩
      cases failure <;> exact List.append_nil _
  | sweep maxAge now =>
      exact ⟨ledger.enter (.sweep maxAge, now), .enter .., rfl, List.append_nil _⟩

/-! ## The ledger goes along -/

/-- A ledger accounts for the service: its store is that of the service, and what it has admitted
are the jobs whose identifiers were drawn. -/
structure AccountsFor (ledger : Ledger) (state : State) : Prop where
  kept : ledger.Kept
  store : state.store = ledger.store
  drawn : ledger.admitted = state.drawnIds

namespace AccountsFor

variable {ledger : Ledger} {state after : State}

theorem moves (haccounts : AccountsFor ledger state) {crew : Crew}
    (hmoves : Moves state.crew crew) : ∃ later, ledger.GrowsInto later ∧
      crew.world.store = later.store ∧ later.admitted = ledger.admitted := by
  induction hmoves with
  | refl => exact ⟨ledger, .refl ledger, haccounts.store, rfl⟩
  | tail _ hmove ih =>
      obtain ⟨between, hgrows, hstore, hadmitted⟩ := ih
      obtain ⟨later, hgrows', hstore', hadmitted'⟩ :=
        (hstore ▸ wanes_of_move hmove).exists_grown
      exact ⟨later, hgrows.trans hgrows', hstore'.symm, hadmitted'.trans hadmitted⟩

/-- The ledger goes along between two messages. -/
theorem goesOn (haccounts : AccountsFor ledger state) (hgoes : GoesOn state after) :
    ∃ later, ledger.GrowsInto later ∧ AccountsFor later after := by
  obtain ⟨later, hgrows, hstore, hadmitted⟩ := haccounts.moves hgoes.moves
  refine ⟨later, hgrows, hgrows.kept haccounts.kept, hstore, ?_⟩
  rw [hadmitted, haccounts.drawn, State.drawnIds, State.drawnIds, hgoes.setup, hgoes.drawn]

/-- The start of a job in a free slot is entered, with the identifier that was drawn for it. -/
theorem withJob (haccounts : AccountsFor ledger state) (judged : Judged)
    (hfree : state.store.current = none) :
    AccountsFor (ledger.enter (.tryStart (state.jobOf judged), state.clock))
      (state.withJob judged) := by
  have hstore := haccounts.store
  have hentered := Ledger.enter_tryStart_of_free (hstore ▸ hfree)
    (rfl : (state.jobOf judged).status = .pending) state.clock
  refine ⟨haccounts.kept.enter _, ?_, ?_⟩
  · exact congrArg (fun store => (Store.tryStart store (state.jobOf judged)).2) hstore
  · rw [congrArg Ledger.admitted hentered]
    show ledger.admitted ++ [state.nextId] = (List.range (state.drawn + 1)).map state.setup.supply
    rw [haccounts.drawn, List.range_succ, List.map_append]
    rfl

/-- The ledger goes along with every answer. -/
theorem reply (haccounts : AccountsFor ledger state) {message : Http.Request}
    {response : Http.Response} (hreply : Reply state message response after) :
    ∃ later, ledger.GrowsInto later ∧ AccountsFor later after := by
  cases hreply with
  | plain limiter => exact ⟨ledger, .refl ledger, haccounts.kept, haccounts.store, haccounts.drawn⟩
  | accepted limiter judged limit hasks hrequest haction hfree =>
      have hcounted : AccountsFor ledger { state with limiter } :=
        ⟨haccounts.kept, haccounts.store, haccounts.drawn⟩
      obtain ⟨hkept, hstore, hdrawn⟩ := hcounted.withJob judged hfree
      exact ⟨_, .enter .., hkept, hstore, hdrawn⟩
  | rejected limiter judged error hfree =>
      have hcounted : AccountsFor ledger { state with limiter } :=
        ⟨haccounts.kept, haccounts.store, haccounts.drawn⟩
      obtain ⟨hkept, hstore, hdrawn⟩ := hcounted.withJob judged hfree
      let failure := unscheduledReason error
      let deed : Store.Deed := (.conclude state.nextId (some failure), state.clock)
      refine ⟨_, (Ledger.GrowsInto.enter ..).trans (.enter _ deed), hkept.enter deed, ?_, ?_⟩
      · exact congrArg (Store.apply · deed.1 deed.2) hstore
      · exact (List.append_nil _).trans hdrawn

theorem meet (haccounts : AccountsFor ledger state) (stimulus : Stimulus) :
    ∃ later, ledger.GrowsInto later ∧ AccountsFor later (state.meet stimulus) := by
  cases stimulus with
  | message message => exact haccounts.reply (reply_answer state message)
  | occupy =>
      refine ⟨ledger, .refl ledger, haccounts.kept, ?_, haccounts.drawn⟩
      rw [← haccounts.store]
      obtain ⟨-, -, hsubmit⟩ | ⟨error, -, hsubmit⟩ := state.crew.submit_cases .occupation
      · rw [State.meet, hsubmit]
        rfl
      · rw [State.meet, hsubmit]
        rfl
  | elapse | release | closePool | setClock => exact ⟨ledger, .refl ledger, haccounts⟩

/-- The ledger goes along with every stimulus. -/
theorem respond (haccounts : AccountsFor ledger state) (htidy : state.crew.Tidy)
    (stimulus : Stimulus) :
    ∃ later, ledger.GrowsInto later ∧ AccountsFor later (state.respond stimulus) := by
  obtain ⟨met, hgrows, hmet⟩ := haccounts.meet stimulus
  obtain ⟨later, hgrows', hlater⟩ :=
    hmet.goesOn (State.goesOn_respond stimulus (State.tidy_meet htidy stimulus))
  exact ⟨later, hgrows.trans hgrows', hlater⟩

/-- The ledger goes along with every run. -/
theorem run (haccounts : AccountsFor ledger state) (htidy : state.crew.Tidy)
    (stimuli : List Stimulus) :
    ∃ later, ledger.GrowsInto later ∧ AccountsFor later (state.run stimuli) := by
  induction stimuli generalizing state ledger with
  | nil => exact ⟨ledger, .refl ledger, haccounts⟩
  | cons stimulus stimuli ih =>
      obtain ⟨between, hgrows, hbetween⟩ := haccounts.respond htidy stimulus
      obtain ⟨later, hgrows', hlater⟩ := ih hbetween (State.tidy_respond htidy stimulus)
      exact ⟨later, hgrows.trans hgrows', hlater⟩

end AccountsFor

/-- At its start the service has an empty ledger. -/
theorem accountsFor_start (start : Start) :
    AccountsFor (.blank start.maxHistory) start.state :=
  ⟨⟨start.maxHistory, [], rfl⟩, rfl, rfl⟩

end Upkeep.Service
