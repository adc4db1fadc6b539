/-
# Routes

Which part of the service answers a request follows from its path, which must be spelled exactly.
Requests for actions and questions about jobs are limited by client before anything else is
looked at; the question whether the service is up is not. A request whose method does not fit is
told which ones do.
-/

import Upkeep.Decimal.Layout
import Upkeep.Service.Admission
import Upkeep.Service.Inquiry

namespace Upkeep.Service

/-- A part of the service. -/
inductive Route where
  | action
  | status
  | health
deriving DecidableEq, Repr

namespace Route

/-- All parts of the service. -/
def all : List Route := [.action, .status, .health]

/-- The path of a part. -/
def path : Route → String
  | .action => "/webhook"
  | .status => "/job/status"
  | .health => "/health"

/-- The part that a path leads to. -/
def ofPath? (path : String) : Option Route :=
  all.find? fun route => route.path = path

/-- The methods that a part answers. -/
def methods : Route → List String
  | .action => ["POST"]
  | .status | .health => ["GET", "HEAD"]

/-- Whether requests for a part are limited. -/
def isLimited : Route → Bool
  | .action | .status => true
  | .health => false

end Route

/-- The answer to a request for which there is no part. -/
def nothingThere : Http.Response := ⟨.notFound, [], ""⟩

/-- The response with a header that lists the methods of a part. -/
def withMethods (response : Http.Response) (route : Route) : Http.Response :=
  response.withHeader "allow" (String.intercalate "," route.methods)

/-- The response to a request that asked for the headers alone. -/
def bodiless (message : Http.Request) (response : Http.Response) : Http.Response :=
  if message.method = "HEAD" then { response with body := "" } else response

/-- The response of a part to a request whose method fits it. -/
def answerRoute (state : State) (route : Route) (message : Http.Request) :
    Http.Response × State :=
  match route with
  | .action => answerAction state message
  | .status => (answerStatus state.store state.clock message, state)
  | .health => (answerHealth state.clock, state)

/-- The response of a part to any request. -/
def answerMethod (state : State) (route : Route) (message : Http.Request) :
    Http.Response × State :=
  if message.method ∈ route.methods then
    let (response, state) := answerRoute state route message
    (bodiless message response, state)
  else (withMethods ⟨.methodNotAllowed, [], ""⟩ route, state)

/-- The value of the header that tells the rate at which requests are admitted. -/
def limitText (limiter : RateLimit.Limiter Double) : String :=
  Decimal.Layout.plain.text limiter.limits.rate.toFloat

/-- The header that tells the rate at which requests are admitted. -/
def limitHeader : String := "x-ratelimit-limit"

/-- The answer to a client that asks too often. -/
def tooMany (limiter : RateLimit.Limiter Double) (now : Timestamp) : Http.Response :=
  ((((Http.Response.text .tooManyRequests "Rate limit exceeded, retry later\n").withHeader
    limitHeader (limitText limiter)).withHeader "x-ratelimit-remaining" "0").withHeader
    "x-ratelimit-reset" (toString (now.seconds + 1))).withHeader "retry-after" "1"

/-- Counts a request for its client and answers it, if it is admitted. -/
def answerLimited (state : State) (route : Route) (message : Http.Request) :
    Http.Response × State :=
  let key := RateLimit.clientKey message.headers message.peer state.setup.trustProxy
  let (admitted, limiter) := state.limiter.allow key state.uptime
  let state := { state with limiter }
  if admitted then
    let (response, state) := answerMethod state route message
    (response.withHeader limitHeader (limitText limiter), state)
  else
    let response := bodiless message (tooMany limiter state.clock)
    (if message.method ∈ route.methods then response else withMethods response route, state)

/-- Answers a request. -/
def answer (state : State) (message : Http.Request) : Http.Response × State :=
  match Route.ofPath? message.path with
  | none => (nothingThere, state)
  | some route =>
    if route.isLimited then answerLimited state route message
    else answerMethod state route message

end Upkeep.Service
