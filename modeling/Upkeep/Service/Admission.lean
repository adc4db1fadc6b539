/-
# Admission

A request for an action passes a row of gates, and the first one that it does not pass decides
the answer: its body is read and understood, it is fresh and signed, its action is known, the
slot is free, and the pool takes the job. A job that the pool does not take fails at once, so
that the slot is free again.
-/

import Upkeep.Http.Request
import Upkeep.Request.Written
import Upkeep.Service.Refusal
import Upkeep.Service.State

namespace Upkeep.Service

/-- The most bytes that the body of a request may have: one mebibyte. -/
def maxBodyLength : Nat := 1048576

/-- A request that has passed every gate that does not depend on jobs. -/
structure Judged where
  request : Request
  action : Action

/-- Judges a request by itself, at a time in whole seconds. -/
def judge (authenticator : Authenticator) (now : Int64) (message : Http.Request) :
    Except Refusal Judged := do
  let body ← (Http.readBody maxBodyLength [] message.body).mapError .unreadableBody
  let request ← (Request.ofJson body).mapError .invalidJson
  (checkFresh request.timestamp now).mapError .expired
  if !authenticator.validate message.headers body then throw .invalidSignature
  let action ← request.parsedAction.mapError .unknownAction
  return ⟨request, action⟩

/-- Why a job failed that the pool did not take. -/
def unscheduledReason (error : Pool.PoolError) : String :=
  "failed to schedule job: " ++ error.message

/-- Gives a started job to the pool. -/
def schedule (state : State) (id : JobId) (judged : Judged) : Except Refusal JobId × State :=
  let (taken, crew) := state.crew.submit (.job id judged.request)
  let state := state.withCrew crew
  match taken with
  | .ok () => (.ok id, state)
  | .error error =>
    (.error (.atCapacity error id),
      state.withStore (state.store.failJob id (unscheduledReason error) state.clock).2)

/-- Starts a job for a judged request, if the slot is free and the pool takes it. -/
def startJob (state : State) (judged : Judged) : Except Refusal JobId × State :=
  match state.store.current with
  | some job => (.error (.jobInProgress job), state)
  | none =>
    let id := state.setup.supply state.drawn
    let state := { state with drawn := state.drawn + 1 }
    let (started, store) := state.store.tryStart ⟨id, judged.action, state.clock, .pending⟩
    if started then schedule (state.withStore store) id judged
    else
      match state.store.current with
      | some job => (.error (.jobInProgress job), state)
      | none => (.error .busy, state)

/-- Answers a request for an action. -/
def answerAction (state : State) (message : Http.Request) : Http.Response × State :=
  match judge state.setup.authenticator state.clockSeconds message with
  | .error refusal => (refusal.response, state)
  | .ok judged =>
    match startJob state judged with
    | (.error refusal, state) => (refusal.response, state)
    | (.ok id, state) => (acceptance id judged.action, state)

end Upkeep.Service
