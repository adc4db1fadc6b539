/-
# Answers about a job move forward

Whoever asks about an accepted job is told that it is running, then how it ended, and in the end
that there is no such job. The answer is put together from the slot and the history, which change
with everything that the service does; but the ledger of the service only grows, and where a job
stands in it decides what the answer is. Only identifiers that are drawn twice could bring a job
back.

What is told of a job that is over does not depend on the time, since its duration is fixed by
its end.
-/

import Upkeep.Proofs.Service.Accepted
import Upkeep.Proofs.Service.Accounts
import Upkeep.Proofs.Service.Gates

namespace Upkeep

/-- A job that is over looks the same at all times. -/
theorem Job.view_of_over {job : Job} (hover : job.Over) (now later : Timestamp) :
    job.view now = job.view later := by
  obtain ⟨ended, hended, -⟩ := hover.start_le_end
  exact view_of_ended hended now later

namespace Service

/-! ## Questions about a job -/

/-- A question about the job with an identifier. -/
def AsksAbout (id : JobId) (message : Http.Request) : Prop :=
  Route.ofPath? message.path = some .status ∧ message.method = "GET" ∧
    requestedId message = some id

instance (id : JobId) : DecidablePred (AsksAbout id) :=
  fun _ => inferInstanceAs (Decidable (_ ∧ _))

/-- The answers to the questions about a job that the limiter lets pass. -/
def answersAbout (id : JobId) (exchanges : List Exchange) : List Http.Response :=
  (exchanges.filter fun exchange =>
    AsksAbout id exchange.message ∧ exchange.response.status ≠ .tooManyRequests).map
      Exchange.response

/-- The response shows a job as it is at a moment. -/
def Shows (response : Http.Response) (job : Job) (now : Timestamp) : Prop :=
  ∃ limit, response =
    (Http.Response.json job.httpStatus (job.view now)).withHeader limitHeader limit

theorem Shows.status_body {response : Http.Response} {job : Job} {now : Timestamp}
    (hshows : Shows response job now) :
    response.status = job.httpStatus ∧ response.body = (job.view now).render := by
  obtain ⟨limit, rfl⟩ := hshows
  exact ⟨rfl, rfl⟩

/-- The response says that there is no job with an identifier. -/
def Misses (response : Http.Response) (id : JobId) : Prop :=
  ∃ limit, response = (Absence.notFound id).response.withHeader limitHeader limit

/-- The response tells what a store knows of an identifier at a moment. -/
def Told (store : Store) (now : Timestamp) (id : JobId) (response : Http.Response) : Prop :=
  match store.find? id with
  | some job => Shows response job now
  | none => Misses response id

/-- A question that names a job is answered by what the store knows of it. -/
theorem told_answerStatus (store : Store) (now : Timestamp) {id : JobId}
    {message : Http.Request} (hid : requestedId message = some id) (limit : String) :
    Told store now id ((answerStatus store now message).withHeader limitHeader limit) := by
  unfold Told answerStatus requestedJob
  rw [hid]
  cases hfound : store.find? id with
  | some job => exact ⟨limit, by simp only [hfound]⟩
  | none => exact ⟨limit, by simp only [hfound]⟩

/-- The limiter lets a question pass, which is then answered from the store, or refuses it. -/
theorem told_of_asksAbout (state : State) {id : JobId} {message : Http.Request}
    (hasks : AsksAbout id message)
    (hpasses : (state.handle message).1.status ≠ .tooManyRequests) :
    Told state.store state.clock id (state.handle message).1 := by
  obtain ⟨hroute, hmethod, hid⟩ := hasks
  have hknown : message.method ∈ Route.status.methods := by simp [Route.methods, hmethod]
  have hfull : ∀ response, bodiless message response = response :=
    bodiless_eq (by rw [hmethod]; decide)
  rw [State.handle_eq, answer_of_limited state hroute rfl, answerLimited_eq] at hpasses ⊢
  cases hadmitted : (state.count message).1 with
  | true =>
      rw [if_pos rfl, answerMethod, if_pos hknown]
      show Told _ _ _ ((bodiless message (answerStatus state.store state.clock message)).withHeader
        limitHeader _)
      rw [hfull]
      exact told_answerStatus state.store state.clock hid _
  | false =>
      rw [hadmitted, if_neg Bool.false_ne_true, if_pos hknown, hfull] at hpasses
      exact absurd rfl hpasses

theorem answersAbout_cons_of_pos {id : JobId} {exchange : Exchange} (exchanges : List Exchange)
    (hcounts : AsksAbout id exchange.message ∧ exchange.response.status ≠ .tooManyRequests) :
    answersAbout id (exchange :: exchanges) = exchange.response :: answersAbout id exchanges := by
  rw [answersAbout, List.filter_cons_of_pos (by simpa using hcounts)]
  rfl

theorem answersAbout_cons_of_neg {id : JobId} {exchange : Exchange} (exchanges : List Exchange)
    (haside : ¬(AsksAbout id exchange.message ∧ exchange.response.status ≠ .tooManyRequests)) :
    answersAbout id (exchange :: exchanges) = answersAbout id exchanges := by
  rw [answersAbout, List.filter_cons_of_neg (by simpa using haside)]
  rfl

/-- The first answers about a job tell what the store knows when the run begins. -/
theorem exists_told (id : JobId) (state : State) (stimulus : Stimulus)
    (stimuli : List Stimulus) :
    ∃ told, answersAbout id (state.exchanges (stimulus :: stimuli)) =
        told ++ answersAbout id ((state.respond stimulus).exchanges stimuli) ∧
      ∀ response ∈ told, Told state.store state.clock id response := by
  cases stimulus with
  | message message =>
      have htold : AsksAbout id message → (state.handle message).1.status ≠ .tooManyRequests →
          Told state.store state.clock id (state.handle message).1 := told_of_asksAbout state
      rw [State.exchanges]
      generalize (state.handle message).1 = response at htold ⊢
      by_cases hasks : AsksAbout id message ∧ response.status ≠ .tooManyRequests
      · refine ⟨[response], answersAbout_cons_of_pos _ hasks, ?_⟩
        intro other hother
        rw [List.mem_singleton.1 hother]
        exact htold hasks.1 hasks.2
      · exact ⟨[], answersAbout_cons_of_neg _ hasks, by simp⟩
  | elapse | release | occupy | closePool | setClock => exact ⟨[], rfl, by simp⟩

/-! ## Where a job stands decides what is told of it -/

namespace AccountsFor

variable {ledger : Ledger} {state : State} {stimuli : List Stimulus} {job : Job}

/-- If the identifiers of a whole run are distinct, they are so at its beginning. -/
theorem nodup_admitted (haccounts : AccountsFor ledger state) (htidy : state.crew.Tidy)
    (hdistinct : (state.run stimuli).drawnIds.Nodup) : ledger.admitted.Nodup := by
  obtain ⟨later, hgrows, hlater⟩ := haccounts.run htidy stimuli
  rw [← hlater.drawn] at hdistinct
  exact hdistinct.sublist hgrows.admitted.sublist

/-- A job that was dropped is not found any more. -/
theorem misses_of_dropped (haccounts : AccountsFor ledger state) (htidy : state.crew.Tidy)
    (hdistinct : (state.run stimuli).drawnIds.Nodup) (hdropped : job ∈ ledger.dropped) :
    ∀ response ∈ answersAbout job.id (state.exchanges stimuli), Misses response job.id := by
  induction stimuli generalizing state ledger with
  | nil => nofun
  | cons stimulus stimuli ih =>
      have hnodup := haccounts.nodup_admitted htidy hdistinct
      have hnone := haccounts.kept.balanced.find?_of_dropped hnodup hdropped
      obtain ⟨told, hanswers, htold⟩ := exists_told job.id state stimulus stimuli
      obtain ⟨later, hgrows, hlater⟩ := haccounts.respond htidy stimulus
      intro response hresponse
      rw [hanswers, List.mem_append] at hresponse
      rcases hresponse with hfirst | hrest
      · have hmisses := htold response hfirst
        rwa [Told, haccounts.store, hnone] at hmisses
      · exact ih hlater (State.tidy_respond htidy stimulus) hdistinct
          (hgrows.dropped.subset hdropped) response hrest

/-- A job that is over is shown as it ended until it is dropped. -/
theorem shows_of_knows (haccounts : AccountsFor ledger state) (htidy : state.crew.Tidy)
    (hdistinct : (state.run stimuli).drawnIds.Nodup) (hknows : ledger.Knows job)
    (hover : job.Over) :
    ∃ finished gone, answersAbout job.id (state.exchanges stimuli) = finished ++ gone ∧
      (∀ response ∈ finished, ∀ now, Shows response job now) ∧
      ∀ response ∈ gone, Misses response job.id := by
  induction stimuli generalizing state ledger with
  | nil => exact ⟨[], [], rfl, nofun, nofun⟩
  | cons stimulus stimuli ih =>
      have hnodup := haccounts.nodup_admitted htidy hdistinct
      rcases haccounts.kept.balanced.find?_of_knows hnodup hknows with hfound | ⟨-, hdropped⟩
      · obtain ⟨told, hanswers, htold⟩ := exists_told job.id state stimulus stimuli
        obtain ⟨later, hgrows, hlater⟩ := haccounts.respond htidy stimulus
        obtain ⟨finished, gone, hrest, hshows, hmisses⟩ := ih hlater
          (State.tidy_respond htidy stimulus) hdistinct (hgrows.knows haccounts.kept hknows)
        refine ⟨told ++ finished, gone, ?_, ?_, hmisses⟩
        · rw [hanswers, hrest, List.append_assoc]
        · intro response hresponse now
          rcases List.mem_append.1 hresponse with hfirst | hlast
          · have hshown := htold response hfirst
            rw [Told, haccounts.store, hfound] at hshown
            obtain ⟨limit, heq⟩ := hshown
            exact ⟨limit, by rw [heq, Job.view_of_over hover state.clock now]⟩
          · exact hshows response hlast now
      · exact ⟨[], _, rfl, nofun, haccounts.misses_of_dropped htidy hdistinct hdropped⟩

/-- A job that has begun is shown as running, then as it ended, and then not any more. -/
theorem shows_of_follows (haccounts : AccountsFor ledger state) (htidy : state.crew.Tidy)
    (hdistinct : (state.run stimuli).drawnIds.Nodup) (hrunning : job.status = .running)
    (hfollows : ledger.Follows job) :
    ∃ running finished gone,
      answersAbout job.id (state.exchanges stimuli) = running ++ finished ++ gone ∧
      (∀ response ∈ running, ∃ now, Shows response job now) ∧
      (∃ ended, job.EndsAs ended ∧ ∀ response ∈ finished, ∀ now, Shows response ended now) ∧
      ∀ response ∈ gone, Misses response job.id := by
  induction stimuli generalizing state ledger with
  | nil =>
      obtain ⟨ended, -, hends, -⟩ := Job.complete_of_running hrunning state.clock
      exact ⟨[], [], [], rfl, nofun, ⟨ended, hends, nofun⟩, nofun⟩
  | cons stimulus stimuli ih =>
      rcases hfollows with hcurrent | ⟨ended, hends, hknows⟩
      · obtain ⟨told, hanswers, htold⟩ := exists_told job.id state stimulus stimuli
        obtain ⟨later, hgrows, hlater⟩ := haccounts.respond htidy stimulus
        obtain ⟨running, finished, gone, hrest, hshows, hends, hmisses⟩ := ih hlater
          (State.tidy_respond htidy stimulus) hdistinct
          (Ledger.Follows.growsInto (.inl hcurrent) haccounts.kept hgrows)
        refine ⟨told ++ running, finished, gone, ?_, ?_, hends, hmisses⟩
        · rw [hanswers, hrest, List.append_assoc, List.append_assoc, List.append_assoc]
        · intro response hresponse
          rcases List.mem_append.1 hresponse with hfirst | hlast
          · have hshown := htold response hfirst
            rw [Told, haccounts.store, Ledger.find?_of_current hcurrent] at hshown
            exact ⟨state.clock, hshown⟩
          · exact hshows response hlast
      · obtain ⟨finished, gone, hanswers, hshows, hmisses⟩ :=
          haccounts.shows_of_knows htidy hdistinct hknows hends.ended_over
        rw [hends.same_id] at hanswers hmisses
        exact ⟨[], finished, gone, hanswers, nofun, ⟨ended, hends, hshows⟩, hmisses⟩

end AccountsFor

/-- The job of an accepted request has the slot and is running. -/
theorem current_of_reply {state after : State} {message : Http.Request}
    {response : Http.Response} (hreply : Reply state message response after)
    (hasks : AsksForAction message) (haccepted : response.status = .accepted) :
    ∃ (job : Job) (request : Request), after.store.current = some job ∧ job.status = .running ∧
      Exchange.Accepts ⟨message, response⟩ job.id request := by
  cases hreply with
  | plain limiter hstatus hrefused => exact absurd haccepted (hrefused hasks.1)
  | accepted limiter judged limit _ hrequest haction hfree hopen hroom =>
      have hstarted := congrArg (·.2.current)
        (Store.tryStart_of_free hfree (rfl : (state.jobOf judged).status = .pending))
      exact ⟨_, judged.request, hstarted, rfl, hasks, hrequest, judged.action, limit, haction, rfl⟩
  | rejected limiter judged error hfree herror hstatus =>
      rw [haccepted] at hstatus
      cases hstatus

/-- The answers about a job move forward. In every run in which the identifiers that are drawn are
distinct, and for every request for an action that is accepted in it, the answers to later
questions about its job, as far as the limiter lets them pass, show at first a running job, then
one and the same record of the job after its end, and from then on no job. -/
theorem forward_of_run (start : Start) (before : List Stimulus) (message : Http.Request)
    (later : List Stimulus) (hasks : AsksForAction message)
    (haccepted : ((start.state.run before).handle message).1.status = .accepted)
    (hdistinct : (start.state.run (before ++ .message message :: later)).drawnIds.Nodup) :
    let state := start.state.run before
    ∃ (job : Job) (request : Request) (running finished gone : List Http.Response),
      Exchange.Accepts ⟨message, (state.handle message).1⟩ job.id request ∧
      answersAbout job.id ((state.respond (.message message)).exchanges later) =
        running ++ finished ++ gone ∧
      (job.status = .running ∧ ∀ response ∈ running,
        response.status = .accepted ∧ ∃ now, response.body = (job.view now).render) ∧
      (∃ (ended : Job) (body : String), job.EndsAs ended ∧
        (∀ now, (ended.view now).render = body) ∧
        ∀ response ∈ finished, response.body = body ∧
          (ended.status = .completed ∧ response.status = .ok ∨
            ended.status = .failed ∧ response.status = .internalServerError)) ∧
      ∀ response ∈ gone, response.status = .notFound ∧
        response.body = (Absence.notFound job.id).response.body := by
  intro state
  have htidy : state.crew.Tidy := State.tidy_run (State.tidy_start start) before
  obtain ⟨ledger, -, hstate⟩ := (accountsFor_start start).run (State.tidy_start start) before
  obtain ⟨job, request, hcurrent, hrunning, haccepts⟩ :=
    current_of_reply (reply_answer state message) hasks haccepted
  -- The answer is given before the pool settles, and the job may be over when it has.
  have hmet := State.tidy_meet htidy (.message message)
  obtain ⟨answered, -, hanswered⟩ := hstate.reply (reply_answer state message)
  obtain ⟨settled, hgrows, hsettled⟩ :=
    hanswered.goesOn (State.goesOn_respond (.message message) hmet)
  have hfollows : answered.Follows job := .inl (hanswered.store ▸ hcurrent)
  have hlater : ((state.respond (.message message)).run later).drawnIds.Nodup := by
    rwa [State.run, List.foldl_append] at hdistinct
  obtain ⟨running, finished, gone, hanswers, hshows, ⟨ended, hends, hended⟩, hmisses⟩ :=
    hsettled.shows_of_follows (State.tidy_respond htidy (.message message)) hlater hrunning
      (hfollows.growsInto hanswered.kept hgrows)
  refine ⟨job, request, running, finished, gone, haccepts, hanswers, ⟨hrunning, ?_⟩,
    ⟨ended, (ended.view state.clock).render, hends, ?_, ?_⟩, ?_⟩
  · intro response hresponse
    obtain ⟨now, hshown⟩ := hshows response hresponse
    obtain ⟨hstatus, hbody⟩ := hshown.status_body
    exact ⟨hstatus.trans (by rw [Job.httpStatus, hrunning]), now, hbody⟩
  · intro now
    rw [Job.view_of_over hends.ended_over now state.clock]
  · intro response hresponse
    obtain ⟨hstatus, hbody⟩ := (hended response hresponse state.clock).status_body
    refine ⟨hbody, ?_⟩
    rcases hends.ended_over.terminal with hcompleted | hfailed
    · exact .inl ⟨hcompleted, hstatus.trans (by rw [Job.httpStatus, hcompleted])⟩
    · exact .inr ⟨hfailed, hstatus.trans (by rw [Job.httpStatus, hfailed])⟩
  · intro response hresponse
    obtain ⟨limit, rfl⟩ := hmisses response hresponse
    exact ⟨rfl, rfl⟩

/-- What reaches the small service after the signed request: its update is asked about while the
first command is stuck, and after its release. -/
def inquiries : List Stimulus :=
  [.message question, .release, .message question]
where
  question : Http.Request := { method := "GET", target := "/job/status?job_id=a" }

theorem forward_of_inquiries :
    AsksForAction smallRun.signed ∧
      ((Start.small.state.run []).handle smallRun.signed).1.status = .accepted ∧
      (Start.small.state.run ([] ++ .message smallRun.signed :: inquiries)).drawnIds.Nodup ∧
      ∃ (job : Job) (running finished gone : List Http.Response),
        answersAbout job.id (((Start.small.state.run []).respond
          (.message smallRun.signed)).exchanges inquiries) = running ++ finished ++ gone ∧
        (∀ response ∈ running, response.status = .accepted) ∧
        ∀ response ∈ gone, response.status = .notFound := by
  obtain ⟨hasks, hsigned⟩ := accepted_signed
  have hrun : Start.small.state.run [] = Start.small.state := rfl
  have haccepted : ((Start.small.state.run []).handle smallRun.signed).1.status = .accepted := by
    rw [hrun]
    exact hsigned
  have hdistinct := nodup_drawnIds Start.small Start.small_supply
    ([] ++ .message smallRun.signed :: inquiries)
  obtain ⟨job, -, running, finished, gone, -, hanswers, ⟨-, hrunning⟩, -, hgone⟩ :=
    forward_of_run Start.small [] smallRun.signed inquiries hasks haccepted hdistinct
  exact ⟨hasks, haccepted, hdistinct, job, running, finished, gone, hanswers,
    fun response hresponse => (hrunning response hresponse).1,
    fun response hresponse => (hgone response hresponse).1⟩

end Service

end Upkeep
