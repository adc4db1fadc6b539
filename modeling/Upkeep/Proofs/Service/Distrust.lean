/-
# Where a request says it comes from

Any client can state in the headers of a request for whom it was forwarded. A service that is told
not to believe such headers reads only two of all that a request can have, the one with the
signature and the one that names a job. So whatever the others hold, in however many fields and
between whichever others, the answer is the same, and so is the service after it. What holds of one
request holds of a whole run: at no moment is there anything, from the buckets of the limiter to
the commands of the workers, from which one could tell what was stated.
-/

import Upkeep.Proofs.Service.Accepted

namespace Upkeep

/-! ## Headers that are read -/

namespace Http

/-- The messages are the same but for their headers, and these have the same values under some
names. -/
structure Request.AgreesOn (names : List String) (message other : Request) : Prop where
  method : message.method = other.method
  target : message.target = other.target
  body : message.body = other.body
  peer : message.peer = other.peer
  values : ∀ name ∈ names, message.headers.values name = other.headers.values name

/-- Such messages are about the same resource. -/
theorem Request.AgreesOn.resource {names : List String} {message other : Request}
    (hagrees : message.AgreesOn names other) : message.resource = other.resource := by
  rw [Request.resource, Request.resource, hagrees.target]

theorem Request.AgreesOn.path {names : List String} {message other : Request}
    (hagrees : message.AgreesOn names other) : message.path = other.path := by
  rw [Request.path, Request.path, hagrees.resource]

/-- The first values that such messages have under one of the names read the same. -/
theorem Request.AgreesOn.text? {names : List String} {message other : Request}
    (hagrees : message.AgreesOn names other) {name : String} (hname : name ∈ names) :
    message.headers.text? name = other.headers.text? name := by
  rw [Headers.text?, Headers.text?, hagrees.values name hname]

/-- Whether a header states where a request comes from. -/
def isForwarding (field : String) : Bool :=
  sameName field RateLimit.forwardedForHeader || sameName field RateLimit.realAddressHeader

/-- The message without the headers that state where it comes from. -/
def Request.withoutForwarding (message : Request) : Request :=
  { message with headers := message.headers.filter fun field => !isForwarding field.1 }

/-- Two spellings of a name both state where a request comes from, or neither does. -/
theorem isForwarding_congr {field name : String} (hsame : sameName field name = true) :
    isForwarding field = isForwarding name := by
  have hlower : field.toLower = name.toLower := eq_of_beq hsame
  simp only [isForwarding, sameName, hlower]

/-- What other headers hold does not depend on those that state where a request comes from. -/
theorem Request.values_withoutForwarding (message : Request) {name : String}
    (hother : isForwarding name = false) :
    message.withoutForwarding.headers.values name = message.headers.values name := by
  rw [Headers.values, Headers.values, withoutForwarding, List.filter_filter]
  congr 1
  apply List.filter_congr
  intro field _
  cases hsame : sameName field.1 name with
  | false => rfl
  | true => simp [isForwarding_congr hsame, hother]

/-- Messages that differ only in where they say they come from agree on all other headers. -/
theorem Request.agreesOn_of_withoutForwarding {message other : Request}
    (hsame : message.withoutForwarding = other.withoutForwarding) {names : List String}
    (hothers : ∀ name ∈ names, isForwarding name = false) : message.AgreesOn names other where
  method := congrArg (·.method) hsame
  target := congrArg (·.target) hsame
  body := congrArg (·.body) hsame
  peer := congrArg (·.peer) hsame
  values name hname := by
    rw [← message.values_withoutForwarding (hothers name hname), hsame,
      other.values_withoutForwarding (hothers name hname)]

end Http

namespace Service

/-- The headers that a service reads which does not believe where a request says it comes from. -/
def trustedHeaders : List String :=
  [Signature.headerName, jobIdHeader]

section Answers

variable {message other : Http.Request} (hagrees : message.AgreesOn trustedHeaders other)

include hagrees

theorem judge_congr (authenticator : Authenticator) (now : Int64) :
    judge authenticator now message = judge authenticator now other := by
  have hsigned : ∀ body, authenticator.validate message.headers body =
      authenticator.validate other.headers body := by
    intro body
    rw [Authenticator.validate, Authenticator.validate,
      hagrees.text? (by simp [trustedHeaders])]
  simp only [judge, hagrees.body, hsigned]

theorem requestedId_congr : requestedId message = requestedId other := by
  rw [requestedId, requestedId, hagrees.text? (by simp [trustedHeaders]), Http.Request.query,
    Http.Request.query, hagrees.resource]

theorem answerRoute_congr (state : State) (route : Route) :
    answerRoute state route message = answerRoute state route other := by
  cases route with
  | action => simp only [answerRoute, answerAction, judge_congr hagrees]
  | status =>
      unfold answerRoute answerStatus requestedJob
      rw [requestedId_congr hagrees]
  | health => rfl

theorem answerMethod_congr (state : State) (route : Route) :
    answerMethod state route message = answerMethod state route other := by
  simp only [answerMethod, answerRoute_congr hagrees, bodiless, hagrees.method]

/-- A service that does not believe where requests say they come from counts them by their
peers. -/
theorem count_congr {state : State} (huntrusting : state.setup.trustProxy = false) :
    state.count message = state.count other := by
  simp [State.count, huntrusting, RateLimit.clientKey, hagrees.peer]

/-- Such a service answers by the headers that it reads. -/
theorem answer_congr {state : State} (huntrusting : state.setup.trustProxy = false) :
    answer state message = answer state other := by
  have hcount := count_congr hagrees huntrusting
  have hlimited : ∀ route, answerLimited state route message =
      answerLimited state route other := by
    intro route
    simp only [answerLimited_eq, State.counted, hcount, answerMethod_congr hagrees, bodiless,
      hagrees.method]
  simp only [answer, hagrees.path, hlimited, answerMethod_congr hagrees]

end Answers

/-! ## Runs side by side -/

/-- What the limiter decides on a message, and for which key; nothing if it is not asked. -/
def State.ruling? (state : State) (message : Http.Request) : Option (String × Bool) :=
  ((Route.ofPath? message.path).filter Route.isLimited).map fun _ =>
    (RateLimit.clientKey message.headers message.peer state.setup.trustProxy,
      (state.count message).1)

/-- What the limiter decides in a run, in order. -/
def State.rulings (state : State) : List Stimulus → List (String × Bool)
  | [] => []
  | .message message :: stimuli =>
    (state.ruling? message).toList ++ (state.respond (.message message)).rulings stimuli
  | stimulus :: stimuli => (state.respond stimulus).rulings stimuli

/-- The stimuli are the same, but messages may state different things about where they come
from. -/
inductive Stimulus.Alike : Stimulus → Stimulus → Prop
  | message {message other : Http.Request}
      (hsame : message.withoutForwarding = other.withoutForwarding) :
      Alike (.message message) (.message other)
  | same (stimulus : Stimulus) : Alike stimulus stimulus

/-- The headers that a service reads in any case do not state where a request comes from. -/
theorem not_forwarding_of_trusted :
    ∀ name ∈ trustedHeaders, Http.isForwarding name = false := by
  decide +kernel

theorem agreesOn_of_alike {message other : Http.Request}
    (hsame : message.withoutForwarding = other.withoutForwarding) :
    message.AgreesOn trustedHeaders other :=
  Http.Request.agreesOn_of_withoutForwarding hsame not_forwarding_of_trusted

namespace State

/-- The settings stay what they are. -/
theorem setup_respond {state : State} (htidy : state.crew.Tidy) (stimulus : Stimulus) :
    (state.respond stimulus).setup = state.setup := by
  rw [(goesOn_respond stimulus (tidy_meet htidy stimulus)).setup]
  cases stimulus with
  | message message =>
      have hreply := reply_answer state message
      rw [meet]
      generalize (answer state message).1 = response at hreply
      generalize (answer state message).2 = after at hreply
      cases hreply <;> rfl
  | elapse | release | occupy | closePool | setClock => rfl

section Alike

variable {state : State} (huntrusting : state.setup.trustProxy = false)

include huntrusting

theorem handle_congr {message other : Http.Request}
    (hsame : message.withoutForwarding = other.withoutForwarding) :
    state.handle message = state.handle other := by
  rw [handle_eq, handle_eq, answer_congr (agreesOn_of_alike hsame) huntrusting]

theorem ruling?_congr {message other : Http.Request}
    (hsame : message.withoutForwarding = other.withoutForwarding) :
    state.ruling? message = state.ruling? other := by
  have hagrees := agreesOn_of_alike hsame
  simp [ruling?, hagrees.path, count_congr hagrees huntrusting, huntrusting, RateLimit.clientKey,
    hagrees.peer]

theorem respond_congr {stimulus other : Stimulus} (halike : stimulus.Alike other) :
    state.respond stimulus = state.respond other := by
  cases halike with
  | message hsame => exact congrArg Prod.snd (handle_congr huntrusting hsame)
  | same => rfl

end Alike

/-- From one state on, alike stimuli are followed by the same. -/
theorem indistinguishable_of_alike {state : State} (htidy : state.crew.Tidy)
    (huntrusting : state.setup.trustProxy = false) {stimuli others : List Stimulus}
    (halike : List.Forall₂ Stimulus.Alike stimuli others) :
    (state.exchanges stimuli).map (·.response) = (state.exchanges others).map (·.response) ∧
      state.rulings stimuli = state.rulings others ∧
        ∀ moment, state.run (stimuli.take moment) = state.run (others.take moment) := by
  induction halike generalizing state with
  | nil => exact ⟨rfl, rfl, fun _ => rfl⟩
  | @cons stimulus other stimuli others hfirst _ ih =>
      have hnext := respond_congr huntrusting hfirst
      obtain ⟨hanswers, hrulings, hmoments⟩ := ih (tidy_respond htidy other)
        ((congrArg Setup.trustProxy (setup_respond htidy other)).trans huntrusting)
      refine ⟨?_, ?_, ?_⟩
      · cases hfirst with
        | message hsame =>
            rw [exchanges, exchanges, hnext, List.map_cons, List.map_cons, hanswers,
              handle_congr huntrusting hsame]
        | same stimulus => cases stimulus <;> simpa [exchanges] using hanswers
      · cases hfirst with
        | message hsame =>
            rw [rulings, rulings, hnext, hrulings, ruling?_congr huntrusting hsame]
        | same stimulus => cases stimulus <;> simpa [rulings] using hrulings
      · intro moment
        cases moment with
        | zero => rfl
        | succ moment =>
            show (state.respond stimulus).run _ = (state.respond other).run _
            rw [hnext]
            exact hmoments moment

end State

/-- A service that does not believe where requests say they come from cannot be steered by it. In
two runs from the same start that differ at most in what messages state about it, all answers are
the same, and so is what the limiter decides, and for whom; and at every moment the whole service
is the same: the keys and buckets of the limiter, the jobs of the store, and the pool with all that
its workers have reported, the commands they launched included. -/
theorem indistinguishable_of_run (start : Start) (huntrusting : start.setup.trustProxy = false)
    {stimuli others : List Stimulus} (halike : List.Forall₂ Stimulus.Alike stimuli others) :
    (start.state.exchanges stimuli).map (·.response) =
        (start.state.exchanges others).map (·.response) ∧
      start.state.rulings stimuli = start.state.rulings others ∧
        ∀ moment, start.state.run (stimuli.take moment) = start.state.run (others.take moment) :=
  State.indistinguishable_of_alike (State.tidy_start start) huntrusting halike

/-- The signed request to the small service, which also says for whom it was forwarded. -/
def forwardedFor (address : String) : Http.Request :=
  { smallRun.signed with
    headers :=
      (RateLimit.forwardedForHeader, Text.Utf8.encode address) :: smallRun.signed.headers }

theorem withoutForwarding_forwardedFor (address : String) :
    (forwardedFor address).withoutForwarding = smallRun.signed.withoutForwarding := by
  have hforwarding : Http.isForwarding RateLimit.forwardedForHeader = true := by
    simp [Http.isForwarding, Http.sameName]
  rw [Http.Request.withoutForwarding, Http.Request.withoutForwarding, forwardedFor,
    List.filter_cons_of_neg (by simp [hforwarding])]

/-- The small service believes nobody: who states one address after the other is to it the same as
who states none. -/
theorem indistinguishable_of_forwarded :
    let stated : List Stimulus := [.message (forwardedFor "192.0.2.1"), .elapse nanosPerSecond,
      .message (forwardedFor "192.0.2.2")]
    let unstated : List Stimulus := [.message smallRun.signed, .elapse nanosPerSecond,
      .message smallRun.signed]
    Start.small.setup.trustProxy = false ∧ List.Forall₂ Stimulus.Alike stated unstated ∧
      Start.small.state.rulings stated = Start.small.state.rulings unstated ∧
        Start.small.state.run stated = Start.small.state.run unstated := by
  intro stated unstated
  have halike : List.Forall₂ Stimulus.Alike stated unstated :=
    .cons (.message (withoutForwarding_forwardedFor _)) <| .cons (.same _) <|
      .cons (.message (withoutForwarding_forwardedFor _)) .nil
  obtain ⟨-, hrulings, hmoments⟩ := indistinguishable_of_run Start.small rfl halike
  exact ⟨rfl, halike, hrulings, hmoments 3⟩

end Service

end Upkeep
