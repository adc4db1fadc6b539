/-
# What an answer leaves as it was

A request can be turned down at many points: for its path or its method, by the limiter, for what
its body holds, because of a job in progress, or because the pool does not take its job. Only the
last of these comes after something has been changed, and there the change is made good at once,
except that a failed job is left in the history. At all others the service stays as it was, part
by part. The limiter alone has counted the request, and then only for its own client.

That no part of the service was asked is said by letting any other one stand in its place: a
request that is limited is answered in the same way whatever that part would do with it.
-/

import Upkeep.Proofs.JobId
import Upkeep.Proofs.Service.Gates
import Upkeep.Proofs.Service.Rest
import Upkeep.Proofs.RateLimit.Run

namespace Upkeep

/-! ## The limiter -/

namespace RateLimit.Limiter

variable {α : Type}

/-- Between these limiters nothing has changed but the entry of a key and, if there was none and no
room for it either, that of the key which was seen longest ago. -/
inductive OnlyTouches (key : String) (limiter after : Limiter α) : Prop
  | own (hlimits : after.limits = limiter.limits)
      (hothers : without key after.tracked = without key limiter.tracked)
  | evicts (entry : Tracked α) (hlimits : after.limits = limiter.limits)
      (hunknown : limiter.contains key = false)
      (hfull : limiter.limits.maxKeys ≤ limiter.size)
      (hstalest : stalest limiter.tracked = some entry)
      (hothers : without key after.tracked = without entry.key (without key limiter.tracked))

theorem without_comm (key other : String) (entries : List (Tracked α)) :
    without key (without other entries) = without other (without key entries) := by
  simp only [without, List.filter_filter, Bool.and_comm]

/-- A request that is counted for a key touches nothing else. -/
theorem onlyTouches_allow [Arithmetic α] (limiter : Limiter α) (key : String) (now : Int) :
    OnlyTouches key limiter (limiter.allow key now).2 := by
  obtain ⟨bucket, htracked⟩ := limiter.exists_tracked_allow key now
  have hothers : without key (limiter.allow key now).2.tracked =
      without key (limiter.roomFor key) := by
    rw [htracked]
    simp [without]
  rw [roomFor] at hothers
  split at hothers
  · exact .own rfl hothers
  next hroom =>
    simp only [not_or, Bool.not_eq_true, Nat.not_lt] at hroom
    split at hothers
    · exact .own rfl hothers
    next entry hstalest =>
      rw [without_comm] at hothers
      exact .evicts entry rfl hroom.1 hroom.2 hstalest hothers

end RateLimit.Limiter

namespace Service

/-! ## Requests that reach no part of the service -/

/-- How parts of the service answer requests. -/
abbrev Handler := State → Route → Http.Request → Http.Response × State

/-- The response of a part to any request, if it answers those whose method fits in this way. -/
def answerMethodBy (handler : Handler) (state : State) (route : Route)
    (message : Http.Request) : Http.Response × State :=
  if message.method ∈ route.methods then
    let (response, state) := handler state route message
    (bodiless message response, state)
  else (withMethods ⟨.methodNotAllowed, [], ""⟩ route, state)

/-- Counts a request and answers it, if the parts of the service answer in this way. -/
def answerLimitedBy (handler : Handler) (state : State) (route : Route)
    (message : Http.Request) : Http.Response × State :=
  if (state.count message).1 then
    let (response, after) := answerMethodBy handler (state.counted message) route message
    (response.withHeader limitHeader (limitText (state.count message).2), after)
  else
    let response := bodiless message (tooMany (state.count message).2 state.clock)
    (if message.method ∈ route.methods then response else withMethods response route,
      state.counted message)

/-- The answer to a request, if the parts of the service answer in this way. -/
def answerBy (handler : Handler) (state : State) (message : Http.Request) :
    Http.Response × State :=
  match Route.ofPath? message.path with
  | none => (nothingThere, state)
  | some route =>
    if route.isLimited then answerLimitedBy handler state route message
    else answerMethodBy handler state route message

/-- The service answers in the way in which its own parts do. -/
theorem answerBy_answerRoute (state : State) (message : Http.Request) :
    answerBy answerRoute state message = answer state message :=
  rfl

/-! ## How far a request comes -/

/-- The answer to a question about a job shows a job or says that there is none to be shown. -/
theorem status_answerStatus (store : Store) (now : Timestamp) (message : Http.Request) :
    (answerStatus store now message).status ∈
      [.ok, .accepted, .internalServerError, .notFound] := by
  unfold answerStatus
  split
  next job _ =>
    show job.httpStatus ∈ _
    rw [Job.httpStatus]
    split <;> decide
  · show Http.Status.notFound ∈ _
    decide

/-- The answers to requests that come as far as a part of the service but do not ask for an
action. -/
def asideStatuses : List Http.Status :=
  [.ok, .accepted, .internalServerError, .notFound, .methodNotAllowed]

/-- How far a request comes, and what it does to the service until then. -/
inductive Dealt (state : State) (message : Http.Request) : Http.Response → State → Prop
  /-- There is nothing at its path. -/
  | nowhere (hpath : Route.ofPath? message.path = none) : Dealt state message nothingThere state
  /-- The limiter does not let it pass. -/
  | limited {route : Route} (hroute : Route.ofPath? message.path = some route)
      (hlimited : route.isLimited = true) (hrefused : (state.count message).1 = false)
      {response : Http.Response} (hstatus : response.status = .tooManyRequests) :
      Dealt state message response (state.counted message)
  /-- Its method does not fit, or it is a question. -/
  | aside {route : Route} (hroute : Route.ofPath? message.path = some route)
      {response : Http.Response} (hstatus : response.status ∈ asideStatuses)
      (haction : route = .action → response.status = .methodNotAllowed) {after : State}
      (hafter : after = if route.isLimited then state.counted message else state) :
      Dealt state message response after
  /-- It asks for an action. -/
  | action (hasks : AsksForAction message) (hpasses : (state.count message).1 = true) :
      Dealt state message
        ((answerAction (state.counted message) message).1.withHeader limitHeader
          (limitText (state.count message).2))
        (answerAction (state.counted message) message).2

section Dealt

variable {state after : State} {message : Http.Request} {response : Http.Response}

/-- A part that is not asked for an action tells something, or that it does not know the method. -/
theorem answerMethod_aside (state : State) {route : Route} (message : Http.Request)
    (haside : route = .action → message.method ≠ "POST") :
    (answerMethod state route message).1.status ∈ asideStatuses ∧
      (route = .action → (answerMethod state route message).1.status = .methodNotAllowed) ∧
      (answerMethod state route message).2 = state := by
  rw [answerMethod]
  split
  next hmethod =>
    cases route with
    | action =>
        have hposted : message.method = "POST" := by simpa [Route.methods] using hmethod
        exact absurd hposted (haside rfl)
    | status =>
        have hstatus : (answerRoute state .status message).1.status ∈ asideStatuses :=
          List.mem_append_left [_] (status_answerStatus state.store state.clock message)
        refine ⟨?_, by simp, rfl⟩
        rw [status_bodiless]
        exact hstatus
    | health =>
        refine ⟨?_, by simp, rfl⟩
        rw [status_bodiless]
        exact List.mem_cons_self
  · have hstatus : Http.Status.methodNotAllowed ∈ asideStatuses := by decide
    exact ⟨hstatus, fun _ => rfl, rfl⟩

theorem dealt_answerLimited (state : State) {route : Route} {message : Http.Request}
    (hroute : Route.ofPath? message.path = some route) (hlimited : route.isLimited = true) :
    Dealt state message (answerLimited state route message).1
      (answerLimited state route message).2 := by
  rw [answerLimited_eq]
  split
  next hpasses =>
    by_cases hasks : route = .action ∧ message.method = "POST"
    · obtain ⟨rfl, hposted⟩ := hasks
      rw [answerMethod_posted _ hposted]
      exact .action ⟨hroute, hposted⟩ hpasses
    · have haside : route = .action → message.method ≠ "POST" :=
        fun haction hposted => hasks ⟨haction, hposted⟩
      obtain ⟨hstatus, hmethod, hsame⟩ :=
        answerMethod_aside (state.counted message) message haside
      apply Dealt.aside hroute
      · exact hstatus
      · exact hmethod
      · exact hsame.trans (if_pos hlimited).symm
  next hrefused =>
    apply Dealt.limited hroute hlimited (by simpa using hrefused)
    split <;> simp

/-- Every request comes this far. -/
theorem dealt_answer (state : State) (message : Http.Request) :
    Dealt state message (answer state message).1 (answer state message).2 := by
  rw [answer]
  split
  next hpath => exact .nowhere hpath
  next route hroute =>
    split
    next hlimited => exact dealt_answerLimited state hroute hlimited
    next hfree =>
      have haside : route = .action → message.method ≠ "POST" := by
        rintro rfl
        exact absurd rfl hfree
      obtain ⟨hstatus, hmethod, hsame⟩ := answerMethod_aside state message haside
      exact .aside hroute hstatus hmethod (hsame.trans (if_neg hfree).symm)

end Dealt

/-- What the part for actions does with a request. -/
inductive Acted (state : State) : Http.Response → State → Prop
  | refused (refusal : Refusal)
      (hstatus : refusal.status = .badRequest ∨ refusal.status = .unauthorized) :
      Acted state refusal.response state
  | conflict (job : Job) (hcurrent : state.store.current = some job) :
      Acted state (Refusal.jobInProgress job).response state
  | accepted (judged : Judged) (hfree : state.store.current = none) :
      Acted state (acceptance state.nextId judged.action) (state.accept judged)
  | rejected (judged : Judged) (error : Pool.PoolError) (hfree : state.store.current = none) :
      Acted state (Refusal.atCapacity error state.nextId).response (state.reject judged error)

theorem acted_answerAction (state : State) (message : Http.Request) :
    Acted state (answerAction state message).1 (answerAction state message).2 := by
  rw [answerAction]
  split
  next refusal hrefusal => exact .refused refusal (of_judge_eq_error hrefusal)
  next judged _ =>
    obtain ⟨job, hcurrent, hstart⟩ | ⟨hfree, ⟨-, -, hstart⟩ | ⟨error, -, hstart⟩⟩ :=
      startJob_cases state judged
    · rw [hstart]
      exact .conflict job hcurrent
    · rw [hstart]
      exact .accepted judged hfree
    · rw [hstart]
      exact .rejected judged error hfree

/-! ## Jobs that are named -/

/-- The response names a job in its headers, and no other one, as far as the name can be sent. -/
def Names (response : Http.Response) (id : JobId) : Prop :=
  response.headers.values jobIdHeader =
    if id.CanBeSent then [Text.Utf8.encode id.text] else []

theorem values_withHeader (response : Http.Response) (name value wanted : String) :
    (response.withHeader name value).headers.values wanted =
      response.headers.values wanted ++
        if Http.sameName name wanted then [Text.Utf8.encode value] else [] := by
  simp only [Http.Response.withHeader, Http.Headers.values, List.filter_append, List.map_append]
  cases hsame : Http.sameName name wanted <;> simp [hsame]

/-- Telling the rate does not matter to the job that a response names. -/
theorem names_of_unnamed {response : Http.Response}
    (hunnamed : response.headers.values jobIdHeader = []) (id : JobId) (limit : String) :
    Names ((withJobId response id).withHeader limitHeader limit) id := by
  have hlimit : Http.sameName limitHeader jobIdHeader = false := by decide +kernel
  have hown : Http.sameName jobIdHeader jobIdHeader = true := by decide +kernel
  rw [Names, values_withHeader, hlimit, withJobId]
  by_cases hsent : id.CanBeSent
  · have hall : (Text.Utf8.encode id.text).all Http.isAllowed = true := hsent
    rw [if_pos hall, if_pos hsent, values_withHeader, hunnamed, hown]
    rfl
  · have hsome : ¬(Text.Utf8.encode id.text).all Http.isAllowed = true := hsent
    rw [if_neg hsome, if_neg hsent, hunnamed]
    rfl

/-- A typed body is no name of a job. -/
theorem unnamed_text (status : Http.Status) (body : String) :
    (Http.Response.text status body).headers.values jobIdHeader = [] := by
  have htype : Http.sameName "content-type" jobIdHeader = false := by decide +kernel
  simp [Http.Response.text, Http.Headers.values, htype]

theorem unnamed_json (status : Http.Status) (value : Json.Value) :
    (Http.Response.json status value).headers.values jobIdHeader = [] := by
  have htype : Http.sameName "content-type" jobIdHeader = false := by decide +kernel
  simp [Http.Response.json, Http.Headers.values, htype]

/-! ## What is left of a request that is refused -/

/-- The request has left nothing behind but a job that has failed at once, and which the response
names. It is the newest one of the history, of which as many jobs are kept as before, and the
slot is free as it was. The pool has handed out a ticket and noted that it took no task. -/
structure FailsAtOnce (state : State) (response : Http.Response) (after : State) : Prop where
  free : state.store.current = none
  recorded : ∃ failed : Job, failed.status = .failed ∧ Names response failed.id ∧
    after.store = ⟨state.store.maxHistory, none,
      Store.keepNewest state.store.maxHistory (state.store.history ++ [failed])⟩
  rest : ∃ error, after =
    { state with
      limiter := after.limiter
      drawn := state.drawn + 1
      crew := { state.crew with
        world := { state.crew.world with store := after.store }
        nextTicket := state.crew.nextTicket + 1
        log := state.crew.log ++ [⟨state.crew.now, .refused state.crew.nextTicket error⟩] } }

/-- The response names the job in the slot, in its headers and in its body. -/
def NamesCurrent (state : State) (response : Http.Response) : Prop :=
  ∃ job, state.store.current = some job ∧ Names response job.id ∧
    ∃ members, response.body = (Json.Value.object members).render ∧
      ("job_id", job.id.toJson) ∈ members

/-- What goes with each answer, for a request that comes with a client's key. -/
structure Frame (state : State) (message : Http.Request) (response : Http.Response)
    (after : State) : Prop where
  /-- A request that is refused for what it is, and a question, leave all as it was but the
  limiter. -/
  unchanged :
    response.status ∈
      [.badRequest, .unauthorized, .notFound, .methodNotAllowed, .conflict, .tooManyRequests] ∨
      message.path = "/job/status" ∨ message.path = "/health" →
    after = { state with limiter := after.limiter }
  /-- A request that is turned down by the limiter reaches no part of the service. -/
  unheard : response.status = .tooManyRequests →
    ∀ handler, answerBy handler state message = (response, after)
  /-- The limiter is concerned with the client alone. -/
  counted : state.limiter.OnlyTouches
    (RateLimit.clientKey message.headers message.peer state.setup.trustProxy) after.limiter
  /-- It is not concerned at all with other parts than those that it limits. -/
  uncounted : message.path ≠ "/webhook" → message.path ≠ "/job/status" →
    after.limiter = state.limiter
  unavailable : response.status = .serviceUnavailable → FailsAtOnce state response after
  conflict : response.status = .conflict → NamesCurrent state response

section Frame

variable {state after : State} {message : Http.Request} {response : Http.Response}

theorem path_of_ofPath? {path : String} {route : Route} (hroute : Route.ofPath? path = some route) :
    path = route.path := by
  have hpath : route.path = path := by simpa using List.find?_some hroute
  exact hpath.symm

/-- A request that is only counted touches its own client in the limiter. -/
theorem onlyTouches_count (state : State) (message : Http.Request) :
    state.limiter.OnlyTouches
      (RateLimit.clientKey message.headers message.peer state.setup.trustProxy)
      (state.count message).2 :=
  RateLimit.Limiter.onlyTouches_allow ..

theorem onlyTouches_refl {α : Type} (limiter : RateLimit.Limiter α) (key : String) :
    limiter.OnlyTouches key limiter :=
  .own rfl rfl

/-- Whether the limiter counts for a route that is not limited does not matter. -/
theorem limiter_of_path {route : Route} (hroute : Route.ofPath? message.path = some route)
    (haction : message.path ≠ "/webhook") (hstatus : message.path ≠ "/job/status") :
    route.isLimited = false := by
  have hpath := path_of_ofPath? hroute
  cases route with
  | action => exact absurd hpath haction
  | status => exact absurd hpath hstatus
  | health => rfl

/-- The job of an action that the pool does not take has failed at once. -/
theorem failsAtOnce_reject (state : State) (message : Http.Request) (judged : Judged)
    (error : Pool.PoolError) (hfree : state.store.current = none) (limit : String) :
    FailsAtOnce state
      ((Refusal.atCapacity error state.nextId).response.withHeader limitHeader limit)
      ((state.counted message).reject judged error) := by
  obtain ⟨failed, hfailed, hid, hstore⟩ :=
    store_reject (state.counted message) judged error hfree
  have hnamed : Names
      ((Refusal.atCapacity error state.nextId).response.withHeader limitHeader limit)
      failed.id := by
    rw [hid]
    exact names_of_unnamed (unnamed_text _ _) state.nextId limit
  exact ⟨hfree, ⟨failed, hfailed, hnamed, hstore⟩, error, rfl⟩

/-- The response to a request that meets a job in progress names that job. -/
theorem namesCurrent_conflict {job : Job} (hcurrent : state.store.current = some job)
    (limit : String) :
    NamesCurrent state ((Refusal.jobInProgress job).response.withHeader limitHeader limit) := by
  refine ⟨job, hcurrent, names_of_unnamed (unnamed_json _ _) job.id limit, conflictMembers job, ?_,
    by simp [conflictMembers]⟩
  show (withJobId _ job.id).body = _
  rw [withJobId]
  split <;> rfl

/-- What the part for actions leaves as it was. -/
theorem frame_of_action (hasks : AsksForAction message) {answered : Http.Response}
    (hacted : Acted (state.counted message) answered after) (limit : String) :
    Frame state message (answered.withHeader limitHeader limit) after := by
  have hpath : message.path = "/webhook" := path_of_ofPath? hasks.1
  have hstatus : (answered.withHeader limitHeader limit).status = answered.status := rfl
  have hlimiter : after.limiter = (state.count message).2 := by
    cases hacted <;> rfl
  have hcounted := hlimiter ▸ onlyTouches_count state message
  have huncounted : message.path ≠ "/webhook" → message.path ≠ "/job/status" →
      after.limiter = state.limiter := fun haction => absurd hpath haction
  have hother : ¬(message.path = "/job/status" ∨ message.path = "/health") := by
    rw [hpath]
    decide
  cases hacted with
  | refused refusal hrefused =>
      rcases hrefused with hkind | hkind <;>
        exact ⟨fun _ => rfl, by simp [hkind], hcounted, huncounted, by simp [hkind],
          by simp [hkind]⟩
  | conflict job hcurrent =>
      have hkind : (Refusal.jobInProgress job).status = .conflict := rfl
      exact ⟨fun _ => rfl, by simp [hkind], hcounted, huncounted, by simp [hkind],
        fun _ => namesCurrent_conflict hcurrent limit⟩
  | accepted judged hfree =>
      exact ⟨by simp [hother], by simp, hcounted, huncounted, by simp, by simp⟩
  | rejected judged error hfree =>
      have hkind : ∀ id, (Refusal.atCapacity error id).status = .serviceUnavailable := fun _ => rfl
      exact ⟨by simp [hkind, hother], by simp [hkind], hcounted, huncounted,
        fun _ => failsAtOnce_reject state message judged error hfree limit, by simp [hkind]⟩

/-- How far a request comes tells what it leaves as it was. -/
theorem frame_of_dealt (hanswer : (response, after) = answer state message)
    (hdealt : Dealt state message response after) : Frame state message response after := by
  cases hdealt with
  | nowhere hpath =>
      have hstatus : nothingThere.status = .notFound := rfl
      exact ⟨fun _ => rfl, by simp [hstatus], onlyTouches_refl _ _, fun _ _ => rfl,
        by simp [hstatus], by simp [hstatus]⟩
  | limited hroute hlimited hrefused hstatus =>
      refine ⟨fun _ => rfl, fun _ handler => ?_, onlyTouches_count state message, ?_,
        by simp [hstatus], by simp [hstatus]⟩
      · rw [hanswer, ← answerBy_answerRoute]
        simp [answerBy, hroute, hlimited, answerLimitedBy, hrefused]
      · intro haction hquestion
        have hfree := limiter_of_path hroute haction hquestion
        rw [hlimited] at hfree
        cases hfree
  | @aside route hroute response hstatus haction after hafter =>
      have hkinds : response.status ≠ .tooManyRequests ∧ response.status ≠ .serviceUnavailable ∧
          response.status ≠ .conflict := by
        refine ⟨?_, ?_, ?_⟩ <;>
          · intro hkind
            rw [hkind] at hstatus
            exact absurd hstatus (by decide)
      obtain ⟨htooMany, hunavailable, hconflict⟩ := hkinds
      refine ⟨?_, fun h => absurd h htooMany, ?_, ?_, fun h => absurd h hunavailable,
        fun h => absurd h hconflict⟩
      · intro _
        rw [hafter]
        split <;> rfl
      · rw [hafter]
        split
        · exact onlyTouches_count state message
        · exact onlyTouches_refl _ _
      · intro hpath hquestion
        rw [hafter, limiter_of_path hroute hpath hquestion]
        rfl
  | action hasks hpasses =>
      exact frame_of_action hasks (acted_answerAction _ _) _

/-- A request that is not accepted asks nothing of the pool. -/
theorem atRest_of_dealt (hrest : state.crew.AtRest) (hdealt : Dealt state message response after)
    (hrefused : ¬(AsksForAction message ∧ response.status = .accepted)) : after.crew.AtRest := by
  cases hdealt with
  | nowhere | limited => exact hrest
  | aside _ _ _ hafter =>
      rw [hafter]
      split <;> exact hrest
  | action hasks hpasses =>
      have hacted := acted_answerAction (state.counted message) message
      rw [status_withHeader] at hrefused
      generalize (answerAction (state.counted message) message).1 = answered at hacted hrefused
      generalize (answerAction (state.counted message) message).2 = after at hacted ⊢
      cases hacted with
      | refused | conflict => exact hrest
      | accepted judged hfree => exact absurd ⟨hasks, status_acceptance ..⟩ hrefused
      | rejected judged error hfree =>
          exact (((hrest.withWorld _).ticketed).note _).withWorld _

end Frame

/-- A request that is not accepted leaves the service as it was. In every state of the service the
answer to a request goes with what is left of it: if the request is refused for what it is or for
a job in progress, or is a question, nothing has changed but what the limiter has counted for its
client; if the limiter turned it down, no part of the service was asked; if the pool did not take
its job, that job has failed at once and is named, and the slot is free as it was; and a conflict
names the job in the slot. After every run of the service the answer is all that comes of such a
request, since nothing in the service has been waiting for it. -/
theorem frame_of_answer (state : State) (message : Http.Request) :
    let response := (answer state message).1
    let after := (answer state message).2
    Frame state message response after ∧
      ∀ start stimuli, state = State.run (Start.state start) stimuli →
        ¬(AsksForAction message ∧ response.status = .accepted) →
        state.handle message = (response, after) := by
  intro response after
  have hdealt := dealt_answer state message
  refine ⟨frame_of_dealt rfl hdealt, ?_⟩
  rintro start stimuli rfl hrefused
  have hrest := atRest_of_dealt (atRest_run start stimuli) hdealt hrefused
  rw [State.handle_eq, State.settle, hrest.settle_eq work]
  rfl

end Service

end Upkeep
