/-
# The gates in front of an action

Whether a request for an action is accepted can be told without looking at how it is answered:
there is a row of gates, each open or closed to the request for reasons of its own, and the first
closed one decides. Its whole body arrives and is not too long; the body is a request; it was
signed near the present; its first signature is the one that belongs to exactly these bytes; its
action is one of three; no job holds the slot; the pool is open and has room. No run of the service
leaves its pool without workers, but a pool without any is as good as closed.

What the gates say is said in terms of the message and the state alone: times are whole numbers
without bounds, a body is all the bytes that arrive, a signature is compared byte by byte.
-/

import Upkeep.Proofs.Pool.Turn
import Upkeep.Proofs.Service.Run
import Upkeep.Proofs.Signature

namespace Upkeep

/-! ## Bodies -/

namespace Http

/-- Whether a piece of a body arrives. -/
def Chunk.arrives : Chunk → Bool
  | .bytes _ => true
  | .broken _ => false

/-- The bytes that a piece of a body brings. -/
def Chunk.content : Chunk → List UInt8
  | .bytes content => content
  | .broken _ => []

/-- Whether all of the body arrives. -/
def Request.arrives (message : Request) : Bool :=
  message.body.all Chunk.arrives

/-- The bytes of the body. -/
def Request.content (message : Request) : List UInt8 :=
  message.body.flatMap Chunk.content

/-- Reading stops early only at a body that breaks off or is too long. -/
theorem readBody_eq_ok_iff {limit : Nat} {read body : List UInt8} {chunks : List Chunk}
    (hread : read.length ≤ limit) :
    readBody limit read chunks = .ok body ↔
      chunks.all Chunk.arrives = true ∧ body = read ++ chunks.flatMap Chunk.content ∧
        body.length ≤ limit := by
  fun_induction readBody limit read chunks with
  | case1 read =>
      constructor
      · intro h
        cases h
        simp [hread]
      · rintro ⟨-, rfl, -⟩
        simp
  | case2 read reason rest => simp [Chunk.arrives]
  | case3 read content rest hlong =>
      constructor
      · nofun
      · rintro ⟨-, rfl, hshort⟩
        simp [Chunk.content] at hshort
        omega
  | case4 read content rest hshort ih =>
      have hmore : (read ++ content).length ≤ limit := by
        rw [List.length_append]
        omega
      rw [ih hmore]
      simp [Chunk.arrives, Chunk.content]

end Http

namespace Service

/-! ## Times -/

/-- The calendar clock shows a number of seconds that needs far less than 64 bits. -/
theorem State.toInt_clockSeconds (state : State) :
    state.clockSeconds.toInt = state.clock.seconds := by
  have hlow := state.clock.earliest_le
  have hhigh := state.clock.le_latest
  simp only [Timestamp.earliest, Timestamp.latest] at hlow hhigh
  apply Int64.toInt_ofInt_of_le
  · simp only [Timestamp.seconds]
    omega
  · simp only [Timestamp.seconds]
    omega

/-- A request is fresh if the difference of the two times, however large, is within the window. -/
theorem checkFresh_eq (timestamp now : Int64) :
    checkFresh timestamp now =
      if (now.toInt - timestamp.toInt).natAbs ≤ 300 then .ok () else .error ⟨timestamp, now⟩ := by
  have hmin : Int64.minValue.toInt = -2 ^ 63 := rfl
  have hmax : Int64.maxValue.toInt = 2 ^ 63 - 1 := rfl
  rw [checkFresh, difference?, hmin, hmax]
  by_cases hfits : -2 ^ 63 ≤ now.toInt - timestamp.toInt ∧
      now.toInt - timestamp.toInt ≤ 2 ^ 63 - 1
  · have hexact : (Int64.ofInt (now.toInt - timestamp.toInt)).toInt =
        now.toInt - timestamp.toInt :=
      Int64.toInt_ofInt_of_le hfits.1 (by omega)
    simp only [if_pos hfits, hexact]
    rfl
  · have hfar : ¬(now.toInt - timestamp.toInt).natAbs ≤ 300 := by omega
    rw [if_neg hfits, if_neg hfar]

/-! ## The gates -/

/-- What a request for an action has to pass. -/
inductive Gate where
  | body
  | json
  | fresh
  | signed
  | known
  | slot
  | pool
deriving DecidableEq

namespace Gate

/-- The gates in their order. -/
def all : List Gate := [.body, .json, .fresh, .signed, .known, .slot, .pool]

/-- The status of the answer to a request that is stopped at a gate. -/
def status : Gate → Http.Status
  | .body | .json | .fresh | .known => .badRequest
  | .signed => .unauthorized
  | .slot => .conflict
  | .pool => .serviceUnavailable

end Gate

/-- The request that the bytes of a message are, if they are one. -/
def written? (message : Http.Request) : Option Request :=
  (Request.ofJson message.content).toOption

/-- Whether a gate is open to a message. -/
def Gate.Open (state : State) (message : Http.Request) : Gate → Prop
  | .body => message.arrives = true ∧ message.content.length ≤ 1048576
  | .json => (written? message).isSome = true
  | .fresh => ∃ request ∈ written? message,
      (state.clock.seconds - request.timestamp.toInt).natAbs ≤ 300
  | .signed => (message.headers.values "x-cloud-update-signature").head? =
      some (Text.Utf8.encode (state.setup.authenticator.sign message.content))
  | .known => ∃ request ∈ written? message, request.action ∈ ["reinit", "reboot", "update"]
  | .slot => state.store.current = none
  | .pool => state.crew.isOpen = true ∧ state.crew.isDeserted = false ∧
      state.crew.size < state.crew.settings.capacity

instance (state : State) (message : Http.Request) : DecidablePred (Gate.Open state message)
  | .body => inferInstanceAs (Decidable (_ ∧ _))
  | .json => inferInstanceAs (Decidable (_ = true))
  | .fresh => inferInstanceAs (Decidable (∃ request ∈ written? message, _))
  | .signed => inferInstanceAs (Decidable (_ = _))
  | .known => inferInstanceAs (Decidable (∃ request ∈ written? message, _))
  | .slot => inferInstanceAs (Decidable (_ = _))
  | .pool => inferInstanceAs (Decidable (_ ∧ _ ∧ _))

/-- The first gate that is closed to a message. -/
def firstClosed? (state : State) (message : Http.Request) : Option Gate :=
  Gate.all.find? fun gate => ¬gate.Open state message

/-- The status that the gates give to the answer to a message. -/
def verdict (state : State) (message : Http.Request) : Http.Status :=
  ((firstClosed? state message).map Gate.status).getD .accepted

theorem verdict_eq_accepted_iff (state : State) (message : Http.Request) :
    verdict state message = .accepted ↔ ∀ gate : Gate, gate.Open state message := by
  have hall : ∀ gate, gate ∈ Gate.all := by
    intro gate
    cases gate <;> decide
  rw [verdict]
  cases hfirst : firstClosed? state message with
  | none =>
      have hopen := List.find?_eq_none.1 hfirst
      simp only [Option.map_none, Option.getD_none, true_iff]
      intro gate
      simpa using hopen gate (hall gate)
  | some gate =>
      have hclosed : ¬gate.Open state message := by simpa using List.find?_some hfirst
      simp only [Option.map_some, Option.getD_some]
      constructor
      · intro haccepted
        cases gate <;> cases haccepted
      · intro hopen
        exact absurd (hopen gate) hclosed

/-! ## Judgement -/

section Judgement

variable {state : State} {message : Http.Request}

theorem readBody_of_open (hopen : Gate.body.Open state message) :
    Http.readBody maxBodyLength [] message.body = .ok message.content :=
  (Http.readBody_eq_ok_iff (Nat.zero_le _)).2 ⟨hopen.1, rfl, hopen.2⟩

theorem readBody_of_closed (hclosed : ¬Gate.body.Open state message) :
    ∃ reason, Http.readBody maxBodyLength [] message.body = .error reason := by
  cases hread : Http.readBody maxBodyLength [] message.body with
  | error reason => exact ⟨reason, rfl⟩
  | ok body =>
      obtain ⟨harrives, rfl, hshort⟩ := (Http.readBody_eq_ok_iff (Nat.zero_le _)).1 hread
      exact absurd ⟨harrives, hshort⟩ hclosed

/-- The known actions are three. -/
theorem parsedAction_of_known {request : Request}
    (hknown : request.action ∈ ["reinit", "reboot", "update"]) :
    ∃ action, request.parsedAction = .ok action := by
  have hnamed : ∃ action : Action, action.tag = request.action := by
    simp only [List.mem_cons, List.not_mem_nil, or_false] at hknown
    rcases hknown with h | h | h
    · exact ⟨.reinit, h.symm⟩
    · exact ⟨.reboot, h.symm⟩
    · exact ⟨.update, h.symm⟩
  obtain ⟨action, htag⟩ := hnamed
  exact ⟨action, Action.ofTag?_eq_ok_iff.2 htag⟩

theorem known_of_parsedAction {request : Request} {action : Action}
    (hparsed : request.parsedAction = .ok action) :
    request.action ∈ ["reinit", "reboot", "update"] := by
  rw [← Action.ofTag?_eq_ok_iff.1 hparsed]
  cases action <;> decide

/-- A request is refused for what it is at a gate, the first that is closed to it. -/
structure StoppedAt (state : State) (message : Http.Request) (gate : Gate) : Prop where
  first : firstClosed? state message = some gate
  refused : ∃ refusal, refusal.status = gate.status ∧
    judge state.setup.authenticator state.clockSeconds message = .error refusal

theorem stoppedAt_body (hclosed : ¬Gate.body.Open state message) :
    StoppedAt state message .body := by
  obtain ⟨reason, hread⟩ := readBody_of_closed hclosed
  refine ⟨?_, .unreadableBody reason, rfl, ?_⟩
  · simp [firstClosed?, Gate.all, hclosed]
  · simp [judge, hread, Except.mapError, Bind.bind, Except.bind]

theorem stoppedAt_json (hbody : Gate.body.Open state message) {fault : Json.Fault}
    (hparse : Request.ofJson message.content = .error fault) : StoppedAt state message .json := by
  have hread := readBody_of_open hbody
  have hclosed : ¬Gate.json.Open state message := by
    simp [Gate.Open, written?, hparse, Except.toOption]
  refine ⟨?_, .invalidJson fault, rfl, ?_⟩
  · simp [firstClosed?, Gate.all, hbody, hclosed]
  · simp [judge, hread, hparse, Except.mapError, Bind.bind, Except.bind]

/-- What the gates ask of the request that a body is. -/
theorem open_iff_of_parse (state : State) {request : Request}
    (hparse : Request.ofJson message.content = .ok request) :
    Gate.json.Open state message ∧
      (Gate.fresh.Open state message ↔
        (state.clock.seconds - request.timestamp.toInt).natAbs ≤ 300) ∧
      (Gate.known.Open state message ↔ request.action ∈ ["reinit", "reboot", "update"]) := by
  simp [Gate.Open, written?, hparse, Except.toOption]

/-- A request that was received and understood is fresh, signed and for a known action, or is
refused for the first of these that it is not. -/
theorem judge_of_parse (hbody : Gate.body.Open state message) {request : Request}
    (hparse : Request.ofJson message.content = .ok request) :
    judge state.setup.authenticator state.clockSeconds message =
      if ¬Gate.fresh.Open state message then
        .error (.expired ⟨request.timestamp, state.clockSeconds⟩)
      else if ¬Gate.signed.Open state message then .error .invalidSignature
      else (request.parsedAction.mapError .unknownAction).map fun action => ⟨request, action⟩ := by
  have hread := readBody_of_open hbody
  obtain ⟨-, hfresh, -⟩ := open_iff_of_parse state hparse
  have hcheck := checkFresh_eq request.timestamp state.clockSeconds
  rw [state.toInt_clockSeconds] at hcheck
  have hsigned : state.setup.authenticator.validate message.headers message.content = true ↔
      Gate.signed.Open state message := Authenticator.validate_iff ..
  by_cases hlate : Gate.fresh.Open state message
  · rw [if_pos (hfresh.1 hlate)] at hcheck
    by_cases hvalid : Gate.signed.Open state message
    · cases haction : request.parsedAction <;>
        simp [judge, hread, hparse, hcheck, hlate, hvalid, hsigned.2 hvalid, haction,
          Except.mapError, Except.map, Bind.bind, Except.bind, Pure.pure, Except.pure]
    · have hinvalid := Bool.eq_false_iff.2 (mt hsigned.1 hvalid)
      simp [judge, hread, hparse, hcheck, hlate, hvalid, hinvalid, Except.mapError, Bind.bind,
        Except.bind, throw, throwThe, MonadExceptOf.throw]
  · rw [if_neg (mt hfresh.2 hlate)] at hcheck
    simp [judge, hread, hparse, hcheck, hlate, Except.mapError, Bind.bind, Except.bind]

/-- A request is stopped at a gate for what it is, or all gates that do not depend on jobs are
open to it and it is judged well. -/
theorem judge_cases (state : State) (message : Http.Request) :
    (∃ gate, StoppedAt state message gate) ∨
      (∀ gate : Gate, gate ≠ .slot → gate ≠ .pool → gate.Open state message) ∧
        ∃ judged, judge state.setup.authenticator state.clockSeconds message = .ok judged := by
  by_cases hbody : Gate.body.Open state message
  swap
  · exact .inl ⟨.body, stoppedAt_body hbody⟩
  cases hparse : Request.ofJson message.content with
  | error fault => exact .inl ⟨.json, stoppedAt_json hbody hparse⟩
  | ok request =>
      have hjudge := judge_of_parse hbody hparse
      obtain ⟨hjson, -, hknown⟩ := open_iff_of_parse state hparse
      by_cases hfresh : Gate.fresh.Open state message
      swap
      · rw [if_pos hfresh] at hjudge
        refine .inl ⟨.fresh, ?_, _, rfl, hjudge⟩
        simp [firstClosed?, Gate.all, hbody, hjson, hfresh]
      rw [if_neg (not_not.2 hfresh)] at hjudge
      by_cases hsigned : Gate.signed.Open state message
      swap
      · rw [if_pos hsigned] at hjudge
        refine .inl ⟨.signed, ?_, _, rfl, hjudge⟩
        simp [firstClosed?, Gate.all, hbody, hjson, hfresh, hsigned]
      rw [if_neg (not_not.2 hsigned)] at hjudge
      cases hparsed : request.parsedAction with
      | error unknown =>
          have hunknown : ¬Gate.known.Open state message := by
            intro hopen
            obtain ⟨action, haction⟩ := parsedAction_of_known (hknown.1 hopen)
            rw [hparsed] at haction
            cases haction
          rw [hparsed] at hjudge
          refine .inl ⟨.known, ?_, _, rfl, hjudge⟩
          simp [firstClosed?, Gate.all, hbody, hjson, hfresh, hsigned, hunknown]
      | ok action =>
          rw [hparsed] at hjudge
          right
          constructor
          · intro gate hslot hpool
            cases gate with
            | slot => exact absurd rfl hslot
            | pool => exact absurd rfl hpool
            | known => exact hknown.2 (known_of_parsedAction hparsed)
            | body | json | fresh | signed => assumption
          · exact ⟨_, hjudge⟩

end Judgement

/-! ## The answer -/

/-- Between these states of the service nothing is begun: no task comes to the pool, none of its
workers takes one up, no command is launched, and the slot is as it was. If a job is recorded, it
is one that has failed. -/
structure BeginsNothing (state after : State) : Prop where
  slot : after.store.current = state.store.current
  recorded : ∀ job ∈ after.store.history, job ∈ state.store.history ∨ job.status = .failed
  queue : after.crew.queue = state.crew.queue
  callers : after.crew.admitted = state.crew.admitted ∧ after.crew.waiting = state.crew.waiting
  running : after.crew.running = state.crew.running
  starts : after.crew.starts = state.crew.starts
  words : after.crew.words = state.crew.words

/-- A job that the pool does not take has failed at once, and gives the slot back. -/
theorem store_reject (state : State) (judged : Judged) (error : Pool.PoolError)
    (hfree : state.store.current = none) :
    ∃ failed : Job, failed.status = .failed ∧ failed.id = state.nextId ∧
      (state.reject judged error).store =
        ⟨state.store.maxHistory, none,
          Store.keepNewest state.store.maxHistory (state.store.history ++ [failed])⟩ := by
  have hstarted : (state.withJob judged).store =
      { state.store with current := some { state.jobOf judged with state := .running } } :=
    congrArg Prod.snd (Store.tryStart_of_free hfree rfl)
  refine ⟨{ state.jobOf judged with
    state := .failed (state.clock.later state.clock) (unscheduledReason error) }, rfl, rfl, ?_⟩
  show ((state.withJob judged).store.failJob _ _ _).2 = _
  simp [hstarted, Store.failJob, Store.finish, State.jobOf, Job.fail, Job.status]

/-- An answer other than that the action is accepted begins nothing. -/
theorem beginsNothing_of_reply {state after : State} {message : Http.Request}
    {response : Http.Response} (hreply : Reply state message response after)
    (hstatus : response.status ≠ .accepted) : BeginsNothing state after := by
  cases hreply with
  | plain limiter => exact ⟨rfl, fun _ hjob => .inl hjob, rfl, ⟨rfl, rfl⟩, rfl, rfl, rfl⟩
  | accepted => exact absurd (status_acceptance ..) hstatus
  | rejected limiter judged error hfree herror hunavailable =>
      obtain ⟨failed, hfailed, -, hstore⟩ :=
        store_reject { state with limiter } judged error hfree
      constructor
      · rw [hstore, hfree]
      · intro job hjob
        rw [hstore] at hjob
        have hmem : job ∈ state.store.history ++ [failed] := List.mem_of_mem_drop hjob
        rw [List.mem_append, List.mem_singleton] at hmem
        rcases hmem with hold | rfl
        · exact .inl hold
        · exact .inr hfailed
      · rfl
      · exact ⟨rfl, rfl⟩
      · rfl
      · exact Pool.Machine.starts_note _ rfl
      · exact Pool.Machine.words_eq_of_log rfl rfl

/-- For a request that is judged well the slot and the pool decide. -/
theorem verdict_of_judged {state : State} {message : Http.Request}
    (hopen : ∀ gate : Gate, gate ≠ .slot → gate ≠ .pool → gate.Open state message) :
    verdict state message =
      if ¬Gate.slot.Open state message then .conflict
      else if ¬Gate.pool.Open state message then .serviceUnavailable
      else .accepted := by
  have hbody := hopen .body nofun nofun
  have hjson := hopen .json nofun nofun
  have hfresh := hopen .fresh nofun nofun
  have hsigned := hopen .signed nofun nofun
  have hknown := hopen .known nofun nofun
  by_cases hslot : Gate.slot.Open state message <;>
    by_cases hpool : Gate.pool.Open state message <;>
    simp [verdict, firstClosed?, Gate.all, hbody, hjson, hfresh, hsigned, hknown, hslot, hpool,
      Gate.status]

/-- The pool has room exactly if its size has not come to its capacity. -/
theorem pool_open_iff (state : State) (message : Http.Request) :
    Gate.pool.Open state message ↔
      state.crew.takesTasks = true ∧ state.crew.hasRoom = true := by
  simp only [Gate.Open, Pool.Machine.takesTasks, Pool.Machine.size, Pool.Machine.hasRoom,
    decide_eq_true_eq, Bool.and_eq_true, Bool.not_eq_true', and_assoc]
  refine and_congr_right fun hisOpen => ?_
  rw [if_pos hisOpen]

/-- The status of the answer to a request for an action that the limiter lets pass. -/
theorem status_answerAction (state : State) (message : Http.Request) :
    (answerAction state message).1.status = verdict state message := by
  rw [answerAction]
  obtain ⟨gate, hfirst, refusal, hstatus, hjudge⟩ | ⟨hopen, judged, hjudge⟩ :=
    judge_cases state message
  · rw [hjudge, verdict, hfirst]
    simp [hstatus]
  · have hpool := pool_open_iff state message
    rw [verdict_of_judged hopen]
    obtain ⟨job, hcurrent, hstart⟩ | ⟨hfree, ⟨htakes, hroom, hstart⟩ | ⟨error, herror, hstart⟩⟩ :=
      startJob_cases state judged
    · have hslot : ¬Gate.slot.Open state message := by simp [Gate.Open, hcurrent]
      simp [hjudge, hstart, hslot, Refusal.status]
    · have hslot : Gate.slot.Open state message := hfree
      simp [hjudge, hstart, hslot, hpool.2 ⟨htakes, hroom⟩]
    · have hslot : Gate.slot.Open state message := hfree
      have hclosed : ¬Gate.pool.Open state message := by
        rw [hpool]
        rintro ⟨htakes, hroom⟩
        rcases herror with ⟨hshut, -⟩ | ⟨-, hfull, -⟩
        · exact absurd htakes (by simp [hshut])
        · exact absurd hroom (by simp [hfull])
      simp [hjudge, hstart, hslot, hclosed, Refusal.status]

/-- A gate looks at nothing that the limiter changes. -/
theorem verdict_counted (state : State) (message : Http.Request) :
    verdict (state.counted message) message = verdict state message := by
  have hgates : ∀ gate : Gate, gate.Open (state.counted message) message ↔
      gate.Open state message := by
    intro gate
    cases gate <;> rfl
  simp only [verdict, firstClosed?, hgates]

/-- A request for an action that the limiter lets pass is answered as the gates decide. -/
theorem status_handle_of_passes {state : State} {message : Http.Request}
    (hasks : AsksForAction message) (hpasses : (state.count message).1 = true) :
    (state.handle message).1.status = verdict state message := by
  rw [State.handle_eq, answer_of_limited state hasks.1 rfl, answerLimited_eq, if_pos hpasses,
    answerMethod_posted _ hasks.2]
  exact (status_answerAction _ _).trans (verdict_counted state message)

/-- The admission of actions decides exactly. A request for an action that the limiter lets pass
is accepted if every gate is open to it, and otherwise its answer is that of the first closed
gate, in every state of the service; and no other answer than acceptance begins anything. -/
theorem verdict_of_answer (state : State) (message : Http.Request)
    (hpath : message.path = "/webhook") (hmethod : message.method = "POST") :
    let response := (answer state message).1
    (response.status =
      if (state.count message).1 then verdict state message else .tooManyRequests) ∧
    (response.status = .accepted ↔
      (state.count message).1 = true ∧ ∀ gate : Gate, gate.Open state message) ∧
    (response.status ≠ .accepted → BeginsNothing state (answer state message).2) := by
  intro response
  have hroute : Route.ofPath? message.path = some .action := by
    rw [hpath]
    decide
  have hstatus : response.status =
      if (state.count message).1 then verdict state message else .tooManyRequests := by
    have hlimited : response = (answerLimited state .action message).1 := by
      simp only [response, answer, hroute]
      rfl
    have hanswers : message.method ∈ Route.action.methods := by simp [Route.methods, hmethod]
    rw [hlimited, answerLimited_eq]
    cases (state.count message).1 with
    | false => simp [hanswers]
    | true =>
        simp only [if_true, status_withHeader, answerMethod, if_pos hanswers, status_bodiless]
        exact (status_answerAction _ _).trans (verdict_counted state message)
  refine ⟨hstatus, ?_, beginsNothing_of_reply (reply_answer state message)⟩
  rw [hstatus]
  cases (state.count message).1 with
  | false => simp
  | true => simpa using verdict_eq_accepted_iff state message

/-- Every gate of the small service is open to the signed request. -/
theorem open_signed (gate : Gate) : gate.Open Start.small.state smallRun.signed := by
  have hwritten : written? smallRun.signed = some ⟨"update", none, none, 0⟩ := by decide +kernel
  cases gate with
  | body | pool => decide +kernel
  | slot => rfl
  | json =>
      rw [Gate.Open, hwritten]
      rfl
  | fresh | known =>
      rw [Gate.Open, hwritten]
      exact ⟨_, rfl, by decide⟩
  | signed =>
      have hname : Http.sameName Signature.headerName "x-cloud-update-signature" = true :=
        beq_self_eq_true Signature.headerName.toLower
      have hcontent : smallRun.signed.content = smallRun.body := List.append_nil _
      rw [Gate.Open, hcontent]
      simp only [Http.Headers.values, smallRun.signed, List.filter_cons, hname, if_true,
        List.filter_nil, List.map_cons, List.head?_cons]
      rfl

/-- So the small service accepts it. -/
theorem accepted_signed : AsksForAction smallRun.signed ∧
    (Start.small.state.handle smallRun.signed).1.status = .accepted := by
  have hasks : AsksForAction smallRun.signed := by decide
  have hpasses : (Start.small.state.count smallRun.signed).1 = true := by decide +kernel
  refine ⟨hasks, ?_⟩
  rw [status_handle_of_passes hasks hpasses, verdict_eq_accepted_iff]
  exact open_signed

/-- The small service does not accept a request without a signature, and begins nothing. -/
theorem unsigned_not_accepted :
    (answer Start.small.state smallRun.unsigned).1.status ≠ .accepted ∧
      BeginsNothing Start.small.state (answer Start.small.state smallRun.unsigned).2 := by
  obtain ⟨-, haccepted, hnothing⟩ :=
    verdict_of_answer Start.small.state smallRun.unsigned (by decide) rfl
  have hrefused : (answer Start.small.state smallRun.unsigned).1.status ≠ .accepted := by
    intro hstatus
    have hsigned := (haccepted.1 hstatus).2 .signed
    cases hsigned
  exact ⟨hrefused, hnothing hrefused⟩

end Service

end Upkeep
