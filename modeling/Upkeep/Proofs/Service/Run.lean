/-
# Runs of the service

A run is a list of stimuli: messages, time that passes, releases of stuck commands, tasks that
only keep a worker busy, the closing of the pool, and a hand on the calendar clock. Each exchange
of a message and its answer is kept, and so is every errand, that is, every job that was accepted
with the ticket under which the pool took it and the request that its message held. Waiting for the
pool to close is letting time pass until it has closed.

Between two messages the pool only moves by its own changes, by its clock, and by the sweeps of
the store; no job is begun and no identifier is drawn.
-/

import Upkeep.Proofs.Pool.Run
import Upkeep.Proofs.Service.Episode
import Upkeep.Proofs.Service.Reply

namespace Upkeep.Service

/-- All that can be chosen before the service starts. -/
structure Start where
  setup : Setup
  limits : RateLimit.Limits Double
  workers : Nat
  backlog : Nat
  taskTimeout : Nat
  maxHistory : Nat
  reading : Int
  surroundings : Executor.Surroundings
  script : List Play
  circumstances : Pool.Circumstances := {}

/-- The service at its start: no job has been accepted yet. -/
def Start.state (start : Start) : State :=
  .initial start.setup start.limits (.of start.workers start.backlog start.taskTimeout)
    ⟨⟨start.maxHistory, none, []⟩, start.reading, start.surroundings, start.script⟩
    start.circumstances

/-- What reaches the service from outside. -/
inductive Stimulus where
  | message (message : Http.Request)
  | elapse (span : Nat)
  | release
  | occupy
  | closePool (patience : Nat) (inFront : Bool)
  | setClock (reading : Timestamp)

/-- A message with its answer. -/
structure Exchange where
  message : Http.Request
  response : Http.Response

/-- An exchange in which a request is accepted under an identifier. -/
def Exchange.Accepts (exchange : Exchange) (id : JobId) (request : Request) : Prop :=
  AsksForAction exchange.message ∧ requestOf exchange.message = some request ∧
    ∃ action limit, request.parsedAction = .ok action ∧
      exchange.response = (acceptance id action).withHeader limitHeader limit

instance (message : Http.Request) : Decidable (AsksForAction message) :=
  inferInstanceAs (Decidable (_ ∧ _))

/-- Whether an exchange is a request for an action that is answered with acceptance. -/
def Exchange.isAcceptance (exchange : Exchange) : Bool :=
  AsksForAction exchange.message ∧ exchange.response.status = .accepted

theorem Exchange.isAcceptance_iff {message : Http.Request} {response : Http.Response} :
    Exchange.isAcceptance ⟨message, response⟩ = true ↔
      AsksForAction message ∧ response.status = .accepted :=
  decide_eq_true_iff

namespace State

/-- The service after a stimulus. -/
def respond (state : State) : Stimulus → State
  | .message message => (state.handle message).2
  | .elapse span => state.pass span
  | .release => state.release
  | .occupy => state.occupy.2
  | .closePool patience inFront => state.beginClosing patience inFront
  | .setClock reading => state.setClock reading

/-- The service right after a stimulus, before anything comes of it. -/
def meet (state : State) : Stimulus → State
  | .message message => (answer state message).2
  | .occupy => state.withCrew (state.crew.submit .occupation).2
  | _ => state

/-- The service after a run. -/
def run (state : State) (stimuli : List Stimulus) : State :=
  stimuli.foldl respond state

/-- The exchanges of a run, in order. -/
def exchanges (state : State) : List Stimulus → List Exchange
  | [] => []
  | .message message :: stimuli =>
    ⟨message, (state.handle message).1⟩ :: (state.respond (.message message)).exchanges stimuli
  | stimulus :: stimuli => (state.respond stimulus).exchanges stimuli

/-- The errand that comes of a message with its answer: a message that asks for an action gives
one to the pool if it is answered with acceptance. -/
def errandOf? (state : State) (exchange : Exchange) : Option Errand :=
  if exchange.isAcceptance then
    (requestOf exchange.message).map (⟨state.crew.nextTicket, state.nextId, ·⟩)
  else none

/-- The errand that comes of a stimulus. -/
def errand? (state : State) : Stimulus → Option Errand
  | .message message => state.errandOf? ⟨message, (state.handle message).1⟩
  | _ => none

/-- The errands of a run, in order of acceptance. -/
def errands (state : State) : List Stimulus → List Errand
  | [] => []
  | stimulus :: stimuli =>
    (state.errand? stimulus).toList ++ (state.respond stimulus).errands stimuli

/-- The identifiers that have been drawn. -/
def drawnIds (state : State) : List JobId :=
  (List.range state.drawn).map state.setup.supply

theorem handle_eq (state : State) (message : Http.Request) :
    state.handle message = ((answer state message).1, (answer state message).2.settle) :=
  rfl

theorem fst_handle (state : State) (message : Http.Request) :
    (state.handle message).1 = (answer state message).1 := by
  rw [handle_eq]

/-- A message is met with its answer, and then happens what comes of it. -/
theorem respond_message (state : State) (message : Http.Request) :
    state.respond (.message message) = (state.meet (.message message)).settle := by
  rw [respond, handle_eq, meet]

theorem errand?_message (state : State) (message : Http.Request) :
    state.errand? (.message message) = state.errandOf? ⟨message, (answer state message).1⟩ := by
  rw [errand?, fst_handle]

/-- No errand comes of an exchange that is not an acceptance. -/
theorem errandOf?_eq_none (state : State) {exchange : Exchange}
    (hrefusal : ¬ exchange.isAcceptance = true) : state.errandOf? exchange = none :=
  if_neg hrefusal

/-- No errand comes of a message for the part for actions that is not accepted. -/
theorem errandOf?_of_refused (state : State) {message : Http.Request} {response : Http.Response}
    (hrefused : Route.ofPath? message.path = some .action → response.status ≠ .accepted) :
    state.errandOf? ⟨message, response⟩ = none := by
  apply state.errandOf?_eq_none
  intro hacceptance
  obtain ⟨hasks, hstatus⟩ := Exchange.isAcceptance_iff.1 hacceptance
  exact hrefused hasks.1 hstatus

/-- The errand of an acceptance has the next ticket and the next identifier. -/
theorem errandOf?_eq_some (state : State) {message : Http.Request} {response : Http.Response}
    {request : Request} (hasks : AsksForAction message)
    (hstatus : response.status = .accepted) (hrequest : requestOf message = some request) :
    state.errandOf? ⟨message, response⟩ =
      some ⟨state.crew.nextTicket, state.nextId, request⟩ := by
  rw [errandOf?, if_pos (Exchange.isAcceptance_iff.2 ⟨hasks, hstatus⟩), hrequest]
  rfl

/-- An acceptance tells the identifier of its errand and holds its request. -/
theorem accepts_of_reply {state after : State} {message : Http.Request}
    {response : Http.Response} (hreply : Reply state message response after)
    (hacceptance : Exchange.isAcceptance ⟨message, response⟩ = true) :
    ∃ errand, state.errandOf? ⟨message, response⟩ = some errand ∧
      Exchange.Accepts ⟨message, response⟩ errand.id errand.request := by
  obtain ⟨hasks, hstatus⟩ := Exchange.isAcceptance_iff.1 hacceptance
  cases hreply with
  | plain limiter _ hrefused => exact absurd hstatus (hrefused hasks.1)
  | accepted limiter judged limit _ hrequest haction hfree htakes hroom =>
      exact ⟨_, errandOf?_eq_some state hasks hstatus hrequest, hasks, hrequest, judged.action,
        limit, haction, rfl⟩
  | rejected limiter judged error hfree herror hbusy =>
      rw [hstatus] at hbusy
      cases hbusy

/-- The errands of a run are those of its acceptances, one for each, in their order. -/
theorem accepts_errands (state : State) (stimuli : List Stimulus) :
    List.Forall₂ (fun exchange errand => exchange.Accepts errand.id errand.request)
      ((state.exchanges stimuli).filter Exchange.isAcceptance) (state.errands stimuli) := by
  induction stimuli generalizing state with
  | nil => exact .nil
  | cons stimulus stimuli ih =>
      cases stimulus with
      | message message =>
          have hrest := ih (state.respond (.message message))
          have hreply := reply_answer state message
          rw [exchanges, errands, errand?, handle_eq]
          by_cases hacceptance : Exchange.isAcceptance ⟨message, (answer state message).1⟩ = true
          · obtain ⟨errand, herrand, haccepts⟩ := accepts_of_reply hreply hacceptance
            rw [List.filter_cons_of_pos hacceptance, herrand]
            exact .cons haccepts hrest
          · rw [List.filter_cons_of_neg hacceptance, errandOf?_eq_none state hacceptance]
            exact hrest
      | elapse | release | occupy | closePool | setClock => exact ih _

theorem exists_accepts_of_mem_errands {state : State} {stimuli : List Stimulus}
    {errand : Errand} (herrand : errand ∈ state.errands stimuli) :
    ∃ exchange ∈ state.exchanges stimuli, exchange.Accepts errand.id errand.request := by
  obtain ⟨hlength, hpairs⟩ := List.forall₂_iff_get.1 (accepts_errands state stimuli)
  obtain ⟨i, hi, rfl⟩ := List.mem_iff_get.1 herrand
  have hi' : i < ((state.exchanges stimuli).filter Exchange.isAcceptance).length := by
    rw [hlength]
    exact i.isLt
  exact ⟨_, List.mem_of_mem_filter (List.get_mem _ ⟨i, hi'⟩), hpairs i hi' i.isLt⟩

end State

/-! ## Between two messages -/

/-- What happens to the pool between two messages. -/
inductive Move : Crew → Crew → Prop
  | change {m m' : Crew} (hchange : Pool.Machine.Change work m m') : Move m m'
  | clock (m : Crew) (reading : Int) : Move m { m with world := { m.world with reading } }
  | sweep (m : Crew) (now : Timestamp) :
      Move m { m with
        world := { m.world with store := m.world.store.sweep Store.defaultMaxAge now } }

/-- Any number of moves. -/
abbrev Moves : Crew → Crew → Prop :=
  Relation.ReflTransGen Move

theorem tidy_of_move {m m' : Crew} (htidy : m.Tidy) (hmove : Move m m') : m'.Tidy := by
  cases hmove with
  | change hchange => exact htidy.change hchange
  | clock | sweep => exact { htidy with }

theorem tidy_of_moves {m m' : Crew} (htidy : m.Tidy) (hmoves : Moves m m') : m'.Tidy := by
  induction hmoves with
  | refl => exact htidy
  | tail _ hmove ih => exact tidy_of_move ih hmove

theorem moves_of_changes {m m' : Crew} (hchanges : Pool.Machine.Changes work m m') :
    Moves m m' :=
  hchanges.lift id fun _ _ => .change

/-- An answer leaves the pool tidy. -/
theorem tidy_of_reply {state after : State} {message : Http.Request} {response : Http.Response}
    (htidy : state.crew.Tidy) (hreply : Reply state message response after) :
    after.crew.Tidy := by
  cases hreply with
  | plain => exact htidy
  | accepted limiter judged =>
      have hstarted : ({ state with limiter }.withJob judged).crew.Tidy := { htidy with }
      exact hstarted.enqueue_ticketed _
  | rejected limiter judged error =>
      have hstarted : ({ state with limiter }.withJob judged).crew.Tidy := { htidy with }
      exact { hstarted.ticketed.note (rfl : (Pool.Event.refused _ error).start? = none) with }

/-- The service has gone on without beginning a job. -/
structure GoesOn (state after : State) : Prop where
  setup : after.setup = state.setup
  drawn : after.drawn = state.drawn
  moves : Moves state.crew after.crew

theorem GoesOn.refl (state : State) : GoesOn state state :=
  ⟨rfl, rfl, .refl⟩

theorem GoesOn.trans {first second third : State} (h : GoesOn first second)
    (h' : GoesOn second third) : GoesOn first third :=
  ⟨h'.setup.trans h.setup, h'.drawn.trans h.drawn, h.moves.trans h'.moves⟩

namespace State

theorem goesOn_withCrew {state : State} {crew : Crew}
    (hchanges : Pool.Machine.Changes work state.crew crew) : GoesOn state (state.withCrew crew) :=
  ⟨rfl, rfl, moves_of_changes hchanges⟩

theorem goesOn_settle {state : State} (htidy : state.crew.Tidy) : GoesOn state state.settle :=
  goesOn_withCrew (Pool.Machine.steps_settle work htidy).changes

theorem goesOn_tick (state : State) (span : Nat) : GoesOn state (state.tick span) :=
  ⟨rfl, rfl, .single (.clock state.crew _)⟩

theorem goesOn_sweeps (state : State) : GoesOn state state.sweepLimiter.sweepStore := by
  have hlimiter : GoesOn state state.sweepLimiter := by
    unfold sweepLimiter
    split
    · exact ⟨rfl, rfl, .refl⟩
    · exact .refl state
  refine hlimiter.trans ?_
  unfold sweepStore
  split
  · exact ⟨rfl, rfl, .single (.sweep _ _)⟩
  · exact .refl _

/-- Arriving at an instant, the clocks go on, the pool does what is due, and then the sweeps
come. -/
theorem goesOn_arrive {state : State} (htidy : state.crew.Tidy) (span instant : Nat) :
    GoesOn state ((state.tick span).arrive instant) := by
  have htick := goesOn_tick state span
  have hticked := tidy_of_moves htidy htick.moves
  refine htick.trans (GoesOn.trans ?_ (goesOn_sweeps _))
  exact goesOn_withCrew (Pool.Machine.changes_arrive work hticked instant)

theorem goesOn_pass {state : State} (htidy : state.crew.Tidy) (span : Nat) :
    GoesOn state (state.pass span) := by
  refine line.runTo_induction (P := GoesOn state) ?_ (.refl state)
  intro between instant hbefore _ _
  exact hbefore.trans (goesOn_arrive (tidy_of_moves htidy hbefore.moves) _ instant)

theorem goesOn_beginClosing {state : State} (htidy : state.crew.Tidy) (patience : Nat)
    (inFront : Bool) : GoesOn state (state.beginClosing patience inFront) :=
  goesOn_withCrew (Pool.Machine.changes_close work htidy patience inFront)

theorem tidy_meet {state : State} (htidy : state.crew.Tidy) (stimulus : Stimulus) :
    (state.meet stimulus).crew.Tidy := by
  cases stimulus with
  | message message => exact tidy_of_reply htidy (reply_answer state message)
  | occupy => exact htidy.submit .occupation
  | elapse | release | closePool | setClock => exact htidy

/-- Whatever comes of a stimulus, the service goes on from where it met it. -/
theorem goesOn_respond {state : State} (stimulus : Stimulus)
    (htidy : (state.meet stimulus).crew.Tidy) :
    GoesOn (state.meet stimulus) (state.respond stimulus) := by
  cases stimulus with
  | message message =>
      rw [respond_message]
      exact goesOn_settle htidy
  | occupy => exact goesOn_settle htidy
  | elapse span => exact goesOn_pass htidy span
  | release => exact goesOn_withCrew (Pool.Machine.steps_release work htidy _).changes
  | closePool patience inFront => exact goesOn_beginClosing htidy patience inFront
  | setClock reading => exact ⟨rfl, rfl, .single (.clock state.crew _)⟩

theorem tidy_respond {state : State} (htidy : state.crew.Tidy) (stimulus : Stimulus) :
    (state.respond stimulus).crew.Tidy := by
  have hmet := tidy_meet htidy stimulus
  exact tidy_of_moves hmet (goesOn_respond stimulus hmet).moves

theorem tidy_start (start : Start) : start.state.crew.Tidy :=
  ⟨List.nodup_nil, nofun, List.nodup_nil, nofun⟩

theorem tidy_run {state : State} (htidy : state.crew.Tidy) (stimuli : List Stimulus) :
    (state.run stimuli).crew.Tidy := by
  induction stimuli generalizing state with
  | nil => exact htidy
  | cons stimulus stimuli ih => exact ih (tidy_respond htidy stimulus)

/-- Closing the pool and waiting for it is closing it and letting time pass. -/
theorem exists_run_of_closePool (state : State) (patience : Nat) :
    ∃ span, (state.closePool patience).2 = state.run [.closePool patience true, .elapse span] := by
  let closing := state.beginClosing patience true
  suffices h : ∃ span, (state.closePool patience).2 = closing.pass span from h
  have hafter : (state.closePool patience).2 =
      if state.crew.isOpen then
        line.runTo (fun s => s.crew.closing.isNone) (state.now + patience) closing
      else closing := rfl
  rw [hafter]
  split
  · let stopped := line.runTo (fun s => s.crew.closing.isNone) (state.now + patience) closing
    have hlater : closing.now ≤ stopped.now := line.now_le_now_runTo ..
    refine ⟨stopped.now - closing.now, ?_⟩
    rw [pass, Nat.add_sub_of_le hlater]
    exact line.runTo_eq_advance ..
  · refine ⟨0, ?_⟩
    rw [pass, Nat.add_zero, Timeline.advance, Timeline.runTo, dif_neg]
    exact fun hahead => Nat.lt_irrefl _ hahead.2

end State

/-! ## The workers -/

/-- The calls of all tasks come to something: a task of the service is a function that does not do
anything yet when it is called. -/
theorem neverCrashes_work : work.NeverCrashes :=
  fun _ _ _ => rfl

/-- A pool has been set up in the same way as another and has lost the same workers. -/
structure SameStaff (crew crew' : Crew) : Prop where
  settings : crew'.settings = crew.settings
  lost : crew'.lost = crew.lost

theorem SameStaff.refl (crew : Crew) : SameStaff crew crew :=
  ⟨rfl, rfl⟩

theorem SameStaff.trans {first second third : Crew} (h : SameStaff first second)
    (h' : SameStaff second third) : SameStaff first third :=
  ⟨h'.settings.trans h.settings, h'.lost.trans h.lost⟩

theorem sameStaff_of_moves {m m' : Crew} (hmoves : Moves m m') : SameStaff m m' := by
  induction hmoves with
  | refl => exact .refl m
  | tail _ hmove ih =>
      refine ih.trans ?_
      cases hmove with
      | change hchange =>
          have hhappening := Pool.Machine.Happening.change hchange
          exact ⟨(Pool.Machine.lasting_happening hhappening).settings,
            (Pool.Machine.losses_of_neverCrashes neverCrashes_work (.single hhappening)).1⟩
      | clock | sweep => exact ⟨rfl, rfl⟩

theorem sameStaff_of_reply {state after : State} {message : Http.Request}
    {response : Http.Response} (hreply : Reply state message response after) :
    SameStaff state.crew after.crew := by
  cases hreply <;> exact ⟨rfl, rfl⟩

namespace State

theorem sameStaff_respond {state : State} (htidy : state.crew.Tidy) (stimulus : Stimulus) :
    SameStaff state.crew (state.respond stimulus).crew := by
  have hmet : SameStaff state.crew (state.meet stimulus).crew := by
    cases stimulus with
    | message message => exact sameStaff_of_reply (reply_answer state message)
    | occupy =>
        obtain ⟨-, -, hsubmit⟩ | ⟨error, -, hsubmit⟩ := state.crew.submit_cases .occupation <;>
          exact ⟨congrArg (·.2.settings) hsubmit, congrArg (·.2.lost) hsubmit⟩
    | elapse | release | closePool | setClock => exact .refl _
  exact hmet.trans (sameStaff_of_moves (goesOn_respond stimulus (tidy_meet htidy stimulus)).moves)

theorem sameStaff_run {state : State} (htidy : state.crew.Tidy) (stimuli : List Stimulus) :
    SameStaff state.crew (state.run stimuli).crew := by
  induction stimuli generalizing state with
  | nil => exact .refl _
  | cons stimulus stimuli ih =>
      exact (sameStaff_respond htidy stimulus).trans (ih (tidy_respond htidy stimulus))

end State

/-- No run leaves the pool without workers. -/
theorem isDeserted_run (start : Start) (stimuli : List Stimulus) :
    (start.state.run stimuli).crew.isDeserted = false := by
  have hstaff := State.sameStaff_run (State.tidy_start start) stimuli
  have hworkers : start.state.crew.settings.workers = max start.workers 1 := rfl
  have hlost : start.state.crew.lost = [] := rfl
  simp [Pool.Machine.isDeserted, hstaff.settings, hstaff.lost, hworkers, hlost]

/-! ## A small service -/

/-- A small service whose supply never repeats itself. -/
def Start.small : Start where
  setup := {
    authenticator := ⟨List.replicate minSecretLength 107, by decide⟩
    trustProxy := false
    supply := fun n => ⟨String.ofList (List.replicate (n + 1) 'a')⟩ }
  limits := { rate := .ofNat 10, burst := 20 }
  workers := 2
  backlog := 1
  taskTimeout := 300 * nanosPerSecond
  maxHistory := 3
  reading := 0
  surroundings := { distribution := .ok (.supported "debian" .apt) }
  script := [.stuck]

theorem Start.small_supply : Function.Injective Start.small.setup.supply := by
  intro n n' hsame
  have hlength := congrArg (fun id : JobId => id.text.toList.length) hsame
  simpa [Start.small] using hlength

/-- A run of the small service: an update is asked for twice, the second time without a signature,
and its first command is stuck until it is released. -/
def smallRun : List Stimulus :=
  [.message signed, .message unsigned, .elapse nanosPerSecond, .release]
where
  body : List UInt8 :=
    Text.Utf8.encode "\x7b\"action\":\"update\",\"timestamp\":0\x7d"
  unsigned : Http.Request :=
    { method := "POST", target := "/webhook", body := [.bytes body] }
  signed : Http.Request :=
    { unsigned with
      headers :=
        [(Signature.headerName, Text.Utf8.encode (Start.small.setup.authenticator.sign body))] }

end Upkeep.Service
