/-
# What a request can do

However a request is answered, it does one of three things besides being counted by the limiter.
Most answers leave the service as it was. An accepted action has a new job in the slot and its
task at the end of the queue. And an action that the pool does not take leaves a failed job
behind. `Reply` says so once, with the answer that goes with each, for every request and every
state.
-/

import Upkeep.Proofs.Checks
import Upkeep.Proofs.Pool.Step
import Upkeep.Proofs.Store.Ledger
import Upkeep.Service.Run

namespace Upkeep.Service

/-! ## Statuses -/

@[simp] theorem status_withJobId (response : Http.Response) (id : JobId) :
    (withJobId response id).status = response.status := by
  unfold withJobId
  split <;> rfl

@[simp] theorem status_withHeader (response : Http.Response) (name value : String) :
    (response.withHeader name value).status = response.status := rfl

@[simp] theorem status_withMethods (response : Http.Response) (route : Route) :
    (withMethods response route).status = response.status := rfl

@[simp] theorem status_bodiless (message : Http.Request) (response : Http.Response) :
    (bodiless message response).status = response.status := by
  unfold bodiless
  split <;> rfl

@[simp] theorem status_tooMany (limiter : RateLimit.Limiter Double) (now : Timestamp) :
    (tooMany limiter now).status = .tooManyRequests := rfl

@[simp] theorem status_refusal (refusal : Refusal) :
    refusal.response.status = refusal.status := by
  cases refusal with
  | jobInProgress | atCapacity => exact status_withJobId ..
  | unreadableBody | invalidJson | expired | invalidSignature | unknownAction | busy => rfl

@[simp] theorem status_acceptance (id : JobId) (action : Action) :
    (acceptance id action).status = .accepted :=
  status_withJobId ..

/-- A question about a job is never answered as if the service were at its limit. -/
theorem status_answerStatus_ne (store : Store) (now : Timestamp) (message : Http.Request) :
    (answerStatus store now message).status ≠ .serviceUnavailable := by
  unfold answerStatus
  split
  next job _ =>
    show job.httpStatus ≠ _
    unfold Job.httpStatus
    split <;> nofun
  · nofun

/-! ## Judging a request -/

/-- The request that the body of a message holds, if it holds one. -/
def requestOf (message : Http.Request) : Option Request :=
  (Http.readBody maxBodyLength [] message.body).toOption.bind fun body =>
    (Request.ofJson body).toOption

/-- A message that passes judgement holds the judged request, with the judged action. -/
theorem of_judge_eq_ok {authenticator : Authenticator} {now : Int64} {message : Http.Request}
    {judged : Judged} (h : judge authenticator now message = .ok judged) :
    requestOf message = some judged.request ∧
      judged.request.parsedAction = .ok judged.action := by
  unfold judge at h
  obtain ⟨body, hbody, h⟩ := bind_eq_ok_iff.1 h
  obtain ⟨request, hrequest, h⟩ := bind_eq_ok_iff.1 h
  obtain ⟨_, _, h⟩ := bind_eq_ok_iff.1 h
  dsimp only at h
  split at h
  · cases h
  obtain ⟨action, haction, h⟩ := bind_eq_ok_iff.1 h
  cases h
  refine ⟨?_, mapError_eq_ok haction⟩
  rw [requestOf, mapError_eq_ok hbody]
  show (Request.ofJson body).toOption = some request
  rw [mapError_eq_ok hrequest]
  rfl

/-- A message that does not pass judgement is the caller's fault. -/
theorem of_judge_eq_error {authenticator : Authenticator} {now : Int64}
    {message : Http.Request} {refusal : Refusal}
    (h : judge authenticator now message = .error refusal) :
    refusal.status = .badRequest ∨ refusal.status = .unauthorized := by
  unfold judge at h
  rcases bind_eq_error h with hbody | ⟨body, _, h⟩
  · obtain ⟨reason, rfl⟩ := mapError_eq_error hbody
    exact .inl rfl
  rcases bind_eq_error h with hrequest | ⟨request, _, h⟩
  · obtain ⟨fault, rfl⟩ := mapError_eq_error hrequest
    exact .inl rfl
  rcases bind_eq_error h with hfresh | ⟨_, _, h⟩
  · obtain ⟨late, rfl⟩ := mapError_eq_error hfresh
    exact .inl rfl
  dsimp only at h
  split at h
  · cases h
    exact .inr rfl
  rcases bind_eq_error h with haction | ⟨action, _, h⟩
  · obtain ⟨unknown, rfl⟩ := mapError_eq_error haction
    exact .inl rfl
  · cases h

/-! ## Starting a job -/

namespace State

/-- The identifier that is drawn next. -/
def nextId (state : State) : JobId :=
  state.setup.supply state.drawn

/-- The job that a judged request would start now. -/
def jobOf (state : State) (judged : Judged) : Job :=
  ⟨state.nextId, judged.action, state.clock, .pending⟩

/-- The service in which a judged request has started its job, before the pool is asked. -/
def withJob (state : State) (judged : Judged) : State :=
  { state with drawn := state.drawn + 1 }.withStore (state.store.tryStart (state.jobOf judged)).2

/-- The service whose pool has taken the job of a judged request. -/
def accept (state : State) (judged : Judged) : State :=
  (state.withJob judged).withCrew <|
    (state.withJob judged).crew.ticketed.enqueue state.crew.nextTicket
      (.job state.nextId judged.request)

/-- The service whose pool has not taken the job of a judged request. -/
def reject (state : State) (judged : Judged) (error : Pool.PoolError) : State :=
  let refused := (state.withJob judged).withCrew <|
    (state.withJob judged).crew.ticketed.note (.refused state.crew.nextTicket error)
  refused.withStore
    (refused.store.failJob state.nextId (unscheduledReason error) state.clock).2

end State

/-- A judged request that meets a free slot starts its job. -/
theorem startJob_of_free {state : State} (hfree : state.store.current = none) (judged : Judged) :
    startJob state judged = schedule (state.withJob judged) state.nextId judged := by
  have hstarts : (state.store.tryStart (state.jobOf judged)).1 = true := by
    rw [Store.tryStart_of_free hfree rfl]
  unfold startJob
  rw [hfree]
  show (if (state.store.tryStart (state.jobOf judged)).1 then _ else _) = _
  rw [if_pos hstarts]
  rfl

/-- A judged request meets a job in progress, or starts its own and is accepted or rejected by
the pool. -/
theorem startJob_cases (state : State) (judged : Judged) :
    (∃ job, state.store.current = some job ∧
      startJob state judged = (.error (.jobInProgress job), state)) ∨
    state.store.current = none ∧
      (state.crew.takesTasks = true ∧ state.crew.hasRoom = true ∧
        startJob state judged = (.ok state.nextId, state.accept judged) ∨
      ∃ error, (state.crew.takesTasks = false ∧ error = .shutdown ∨
          state.crew.takesTasks = true ∧ state.crew.hasRoom = false ∧ error = .queueFull) ∧
        startJob state judged =
          (.error (.atCapacity error state.nextId), state.reject judged error)) := by
  cases hcurrent : state.store.current with
  | some job => exact .inl ⟨job, rfl, by simp [startJob, hcurrent]⟩
  | none =>
      refine .inr ⟨rfl, ?_⟩
      rw [startJob_of_free hcurrent]
      unfold schedule
      obtain ⟨htakes, hroom, hsubmit⟩ | ⟨error, herror, hsubmit⟩ :=
        (state.withJob judged).crew.submit_cases (.job state.nextId judged.request)
      · refine .inl ⟨htakes, hroom, ?_⟩
        rw [hsubmit]
        rfl
      · refine .inr ⟨error, herror, ?_⟩
        rw [hsubmit]
        rfl

/-! ## Answers -/

/-- A message that asks for an action: it is posted to the part for actions. -/
def AsksForAction (message : Http.Request) : Prop :=
  Route.ofPath? message.path = some .action ∧ message.method = "POST"

/-- What an answer does to the service. -/
inductive Reply (state : State) (message : Http.Request) : Http.Response → State → Prop
  /-- Nothing changes but what the limiter has counted. -/
  | plain (limiter : RateLimit.Limiter Double) {response : Http.Response}
      (hstatus : response.status ≠ .serviceUnavailable)
      (hrefused : Route.ofPath? message.path = some .action → response.status ≠ .accepted) :
      Reply state message response { state with limiter }
  /-- An action is accepted. -/
  | accepted (limiter : RateLimit.Limiter Double) (judged : Judged) (limit : String)
      (hasks : AsksForAction message) (hrequest : requestOf message = some judged.request)
      (haction : judged.request.parsedAction = .ok judged.action)
      (hfree : state.store.current = none) (htakes : state.crew.takesTasks = true)
      (hroom : state.crew.hasRoom = true) :
      Reply state message ((acceptance state.nextId judged.action).withHeader limitHeader limit)
        ({ state with limiter }.accept judged)
  /-- The pool does not take the job of an action. -/
  | rejected (limiter : RateLimit.Limiter Double) (judged : Judged) {response : Http.Response}
      (error : Pool.PoolError) (hfree : state.store.current = none)
      (herror : state.crew.takesTasks = false ∧ error = .shutdown ∨
        state.crew.takesTasks = true ∧ state.crew.hasRoom = false ∧ error = .queueFull)
      (hstatus : response.status = .serviceUnavailable) :
      Reply state message response ({ state with limiter }.reject judged error)

/-- The part for actions does nothing else. -/
theorem reply_answerAction (state : State) (limiter : RateLimit.Limiter Double)
    {message : Http.Request} (hasks : AsksForAction message) (limit : String) :
    Reply state message
      ((answerAction { state with limiter } message).1.withHeader limitHeader limit)
      (answerAction { state with limiter } message).2 := by
  unfold answerAction
  split
  next refusal hrefusal =>
    refine .plain limiter ?_ fun _ => ?_ <;>
      rcases of_judge_eq_error hrefusal with hstatus | hstatus <;> simp [hstatus]
  next judged hjudged =>
    obtain ⟨hrequest, haction⟩ := of_judge_eq_ok hjudged
    obtain ⟨job, hcurrent, hstart⟩ | ⟨hfree, ⟨htakes, hroom, hstart⟩ | ⟨error, herror, hstart⟩⟩ :=
      startJob_cases { state with limiter } judged
    · rw [hstart]
      exact .plain limiter (by simp [Refusal.status]) fun _ => by simp [Refusal.status]
    · rw [hstart]
      exact .accepted limiter judged limit hasks hrequest haction hfree htakes hroom
    · rw [hstart]
      exact .rejected limiter judged error hfree herror (by simp [Refusal.status])

/-- A question changes nothing, and its answer never says that the service is at its limit. -/
theorem answerMethod_of_question (state : State) {route : Route} (hquestion : route ≠ .action)
    (message : Http.Request) :
    (answerMethod state route message).1.status ≠ .serviceUnavailable ∧
      (answerMethod state route message).2 = state := by
  unfold answerMethod
  split
  · cases route with
    | action => exact absurd rfl hquestion
    | status =>
        refine ⟨?_, rfl⟩
        rw [status_bodiless]
        exact status_answerStatus_ne state.store state.clock message
    | health =>
        refine ⟨?_, rfl⟩
        rw [status_bodiless]
        nofun
  · exact ⟨nofun, rfl⟩

/-- Only a request for the headers alone is answered without a body. -/
theorem bodiless_eq {message : Http.Request} (hmethod : message.method ≠ "HEAD")
    (response : Http.Response) : bodiless message response = response :=
  if_neg hmethod

/-- A posted request for an action is answered by its part alone. -/
theorem answerMethod_posted (state : State) {message : Http.Request}
    (hposted : message.method = "POST") :
    answerMethod state .action message = answerAction state message := by
  have hmethod : message.method ∈ Route.action.methods := by simp [Route.methods, hposted]
  rw [answerMethod, if_pos hmethod]
  show (bodiless message _, _) = _
  rw [bodiless_eq (by rw [hposted]; decide)]
  rfl

/-- The part for actions is asked only by a message that is posted. -/
theorem reply_answerMethod_action (state : State) (limiter : RateLimit.Limiter Double)
    {message : Http.Request} (hroute : Route.ofPath? message.path = some .action)
    (limit : String) :
    Reply state message
      ((answerMethod { state with limiter } .action message).1.withHeader limitHeader limit)
      (answerMethod { state with limiter } .action message).2 := by
  by_cases hposted : message.method = "POST"
  · rw [answerMethod_posted _ hposted]
    exact reply_answerAction state limiter ⟨hroute, hposted⟩ limit
  · have hmethod : message.method ∉ Route.action.methods := by simpa [Route.methods] using hposted
    rw [answerMethod, if_neg hmethod]
    exact .plain limiter nofun fun _ => nofun

/-- A part that is limited answers only what the limiter lets pass. -/
theorem answer_of_limited (state : State) {route : Route} {message : Http.Request}
    (hroute : Route.ofPath? message.path = some route) (hlimited : route.isLimited = true) :
    answer state message = answerLimited state route message := by
  rw [answer, hroute]
  exact if_pos hlimited

/-- Whether the limiter lets a message pass, and the limiter that has counted it. -/
def State.count (state : State) (message : Http.Request) :
    Bool × RateLimit.Limiter Double :=
  state.limiter.allow
    (RateLimit.clientKey message.headers message.peer state.setup.trustProxy) state.uptime

/-- The service that has counted a message. -/
def State.counted (state : State) (message : Http.Request) : State :=
  { state with limiter := (state.count message).2 }

/-- A message is counted before anything else of it is looked at. -/
theorem answerLimited_eq (state : State) (route : Route) (message : Http.Request) :
    answerLimited state route message =
      if (state.count message).1 then
        ((answerMethod (state.counted message) route message).1.withHeader limitHeader
            (limitText (state.count message).2),
          (answerMethod (state.counted message) route message).2)
      else
        (if message.method ∈ route.methods then
            bodiless message (tooMany (state.count message).2 state.clock)
          else withMethods (bodiless message (tooMany (state.count message).2 state.clock)) route,
          state.counted message) :=
  rfl

theorem reply_answerLimited (state : State) {route : Route} {message : Http.Request}
    (hroute : Route.ofPath? message.path = some route) :
    Reply state message (answerLimited state route message).1
      (answerLimited state route message).2 := by
  rw [answerLimited_eq]
  split
  · by_cases haction : route = .action
    · subst haction
      exact reply_answerMethod_action state _ hroute _
    · obtain ⟨hstatus, hsame⟩ :=
        answerMethod_of_question (state.counted message) haction message
      rw [hsame]
      exact .plain _ hstatus fun h => absurd (Option.some.inj (hroute ▸ h)) haction
  · refine .plain _ ?_ fun _ => ?_ <;> split <;> simp

/-- Every answer to every request does one of the three things. -/
theorem reply_answer (state : State) (message : Http.Request) :
    Reply state message (answer state message).1 (answer state message).2 := by
  unfold answer
  split
  next hroute => exact .plain state.limiter nofun fun haction => by simp [hroute] at haction
  next route hroute =>
    split
    · exact reply_answerLimited state hroute
    next hfree =>
      have haction : route ≠ .action := by
        rintro rfl
        exact hfree rfl
      obtain ⟨hstatus, hsame⟩ := answerMethod_of_question state haction message
      rw [hsame]
      exact .plain state.limiter hstatus fun h => absurd (Option.some.inj (hroute ▸ h)) haction

end Upkeep.Service
