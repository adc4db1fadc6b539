/-
# What is lost and what is not

An accepted task is in the queue, with one worker, or over, from the moment at which it is
accepted and for ever, as long as a worker is left; closing the pool makes no difference to that,
nor does it that the pool gives up on its tasks. A refused task is never started. A task that ends
in one of its turns, in whatever way and be it by a panic, is all that its worker loses: the other
tasks go on as they are, and the worker is idle again.

What a worker does not survive is a panic in the call that is to give it something to run: it is
lost with that task. When this happens to the last worker, the tasks in the queue are dropped,
although they have been accepted, and that is the only way for a task to be dropped.

All of this is about every state that a pool can reach, also in the middle of an instant. The
main theorem adds what holds between the calls of a run: as many tasks run as there are workers
left, or as many as there are tasks.
-/

import Mathlib.Data.List.Permutation
import Upkeep.Pool.Drill
import Upkeep.Proofs.Pool.Run

namespace Upkeep.Pool.Machine

variable {τ σ ω ε : Type} {b : Behaviour τ σ ω ε} {m later : Machine τ σ ω ε} {ticket : Nat}

/-! ## Answers -/

theorem mem_accepted_of_answer (hanswer : m.answer? ticket = some (.ok ())) :
    ticket ∈ m.accepted := by
  obtain ⟨⟨instant, event⟩, hentry, hsome⟩ := List.exists_of_findSome?_eq_some hanswer
  apply List.mem_filterMap.2
  refine ⟨_, hentry, ?_⟩
  cases event with
  | accepted other => simpa [Event.accepted?] using hsome
  | refused other error => simp at hsome
  | started | said | ended | closed => cases hsome

theorem mem_refusals_of_answer {error : PoolError}
    (hanswer : m.answer? ticket = some (.error error)) : ticket ∈ m.refusals := by
  obtain ⟨⟨instant, event⟩, hentry, hsome⟩ := List.exists_of_findSome?_eq_some hanswer
  apply List.mem_filterMap.2
  refine ⟨_, hentry, ?_⟩
  cases event with
  | accepted other => simp at hsome
  | refused other reason =>
      simp only [Option.ite_none_right_eq_some] at hsome
      simp [Event.refused?, hsome.1]
  | started | said | ended | closed => cases hsome

/-- Nobody is answered who has not submitted anything. -/
theorem Sound.unanswered (hsound : m.Sound) : m.answer? m.nextTicket = none := by
  cases hanswer : m.answer? m.nextTicket with
  | none => rfl
  | some answer =>
      have hplaces : m.nextTicket ∈ m.tally.places := by
        cases answer with
        | ok =>
            have haccepted : m.nextTicket ∈ m.tally.accepted := mem_accepted_of_answer hanswer
            rw [hsound.in_order] at haccepted
            simp only [Tally.places, List.mem_append] at haccepted ⊢
            tauto
        | error =>
            exact List.mem_append_right _ (mem_refusals_of_answer hanswer)
      exact absurd (hsound.lt_nextTicket hplaces) (Nat.lt_irrefl _)

/-- What a submission returns is what the log tells of it. -/
theorem Sound.answer_submit (hsound : m.Sound) (task : τ) :
    (m.submit task).2.answer? m.nextTicket = some (m.submit task).1 := by
  have hnew := hsound.unanswered
  rw [answer?] at hnew
  obtain ⟨-, -, hsubmit⟩ | ⟨error, -, hsubmit⟩ := m.submit_cases task <;>
    simp [hsubmit, answer?, ticketed, enqueue, note, List.findSome?_append, hnew]

/-! ## Accepted and refused tasks -/

/-- The pool knows what has become of the task: it is in one place and once, in the queue, with a
worker, among those that are over or among those that were dropped; and it has been started once,
unless it is in the queue or was dropped. It was dropped only if all workers have been lost. -/
structure Keeps (m : Machine τ σ ω ε) (ticket : Nat) : Prop where
  one_place : (m.queue.map (·.ticket) ++ m.running.map (·.ticket) ++ m.endings ++
    m.dropped).count ticket = 1
  started_once : (m.starts.map (·.1)).count ticket +
    (m.queue.map (·.ticket) ++ m.dropped).count ticket = 1
  deserted_of_dropped : ticket ∈ m.dropped → m.isDeserted = true

theorem Sound.keeps (hsound : m.Sound) (haccepted : ticket ∈ m.accepted) : m.Keeps ticket := by
  have horder : m.accepted = m.starts.map (·.1) ++ (m.dropped ++ m.queue.map (·.ticket)) :=
    hsound.in_order
  have hnodup : m.accepted.Nodup := by
    rw [horder]
    refine (List.nodup_append.1 hsound.nodup_places).1.sublist ?_
    exact ((List.sublist_append_left ..).append_left _).append_left _
  have hone : m.accepted.count ticket = 1 := List.count_eq_one_of_mem hnodup haccepted
  have hhand : (m.starts.map (·.1)).count ticket =
      (m.running.map (·.ticket) ++ m.endings).count ticket := hsound.in_hand.count_eq ticket
  rw [horder, List.count_append, List.count_append] at hone
  rw [List.count_append] at hhand
  refine ⟨?_, ?_, fun hdropped => ?_⟩
  · simp only [List.count_append]
    omega
  · rw [List.count_append]
    omega
  · exact decide_eq_true (hsound.dropped_deserted (List.ne_nil_of_mem hdropped))

theorem Sound.not_started (hsound : m.Sound) (hrefused : ticket ∈ m.refusals) :
    ticket ∉ m.starts.map (·.1) := by
  intro hstarted
  have hapart := (List.nodup_append.1 hsound.nodup_places).2.2
  exact hapart _ (List.mem_append_left _ hstarted) _ hrefused rfl

/-! ## Ends of tasks -/

/-- The worker of a task that is over is idle. -/
structure Recovers (m later : Machine τ σ ω ε) : Prop where
  lost : later.lost = m.lost
  dropped : later.dropped = m.dropped
  idle : later.hasIdleWorker = true

/-- The worker of a task that is over is lost with it: the task has come from the front of the
queue, and calling its function has panicked. The rest of the queue is dropped if that was the last
worker. -/
structure IsLost (b : Behaviour τ σ ω ε) (m later : Machine τ σ ω ε) (ticket : Nat) : Prop where
  called : ∃ first rest, m.queue = first :: rest ∧ first.ticket = ticket ∧
    (m.crash? b first.task).isSome = true
  lost : later.lost = m.lost ++ [ticket]
  dropped : later.dropped = m.dropped ++
    if later.isDeserted then m.queue.tail.map (·.ticket) else []

/-- The end of one task: nothing happens to the other ones that run. -/
structure EndsAlone (b : Behaviour τ σ ω ε) (m later : Machine τ σ ω ε) (ticket : Nat) : Prop where
  endings : later.endings = m.endings ++ [ticket]
  running : later.running = m.running.filter (·.ticket ≠ ticket)
  worker : m.Recovers later ∨ m.IsLost b later ticket

theorem endings_note (m : Machine τ σ ω ε) {event : Event ε} (hother : event.ended? = none) :
    (m.note event).endings = m.endings := by
  rw [endings, note, List.filterMap_append]
  simp [endings, hother]

/-- After a turn the task is still with its worker, or it has ended and left its worker. -/
theorem finishTurn_cases (m : Machine τ σ ω ε) (ticket deadline : Nat) (rung : Bool)
    (place : Nat) (turn : Turn σ ω ε) :
    (m.finishTurn ticket deadline rung place turn).endings = m.endings ∨
      (m.finishTurn ticket deadline rung place turn).endings = m.endings ++ [ticket] ∧
        (m.finishTurn ticket deadline rung place turn).running = m.running := by
  have hended : (m.finishTurn ticket deadline rung place turn).endings =
      m.endings ++ finished ticket turn :=
    congrArg Tally.ended (m.tally_finishTurn ticket deadline rung place turn)
  cases hwaits : turn.waits with
  | some wait =>
      left
      simpa [finished, hwaits] using hended
  | none =>
      right
      obtain ⟨ownPlace, nextPlace, heq⟩ := m.finishTurn_eq ticket deadline rung place turn
      constructor
      · simpa [finished, hwaits] using hended
      · simp [heq, paused, hwaits]

section TakenUp

variable {first : Queued τ} {rest : List (Queued τ)}

/-- So it is after the first turn. -/
theorem firstTurn_cases (m : Machine τ σ ω ε) (rest : List (Queued τ)) (ticket : Nat)
    (rung : Bool) (turn : Turn σ ω ε) :
    ((m.vacate rest).firstTurn ticket rung turn).endings = m.endings ∨
      ((m.vacate rest).firstTurn ticket rung turn).endings = m.endings ++ [ticket] ∧
        ((m.vacate rest).firstTurn ticket rung turn).running = m.running := by
  obtain ⟨hrunning, -, hlog⟩ := admitNext_rest { m with queue := rest }
  have hstart : ∀ (context : Context) (nextPlace : Nat),
      ({ (m.vacate rest).note (.started ticket context) with
        nextPlace } : Machine τ σ ω ε).endings = m.endings := by
    intro context nextPlace
    have hnote : ((m.vacate rest).note (.started ticket context)).endings = _ :=
      endings_note _ rfl
    have hsame : (m.vacate rest).endings = m.endings := congrArg (List.filterMap _) hlog
    exact hnote.trans hsame
  rcases finishTurn_cases _ ticket _ _ _ _ with hstays | ⟨hends, hothers⟩
  · exact .inl (hstays.trans (hstart _ _))
  · exact .inr ⟨hends.trans (congrArg (· ++ _) (hstart _ _)), hothers.trans hrunning⟩

/-- A task from the queue has not run before. -/
theorem Sound.filter_running_eq (hsound : m.Sound) (hqueue : m.queue = first :: rest) :
    m.running.filter (·.ticket ≠ first.ticket) = m.running := by
  rw [List.filter_eq_self]
  intro task htask
  have hstarted := hsound.tidy.running_started task htask
  have hfront : first.ticket ∈ m.frontTickets := by simp [frontTickets, hqueue]
  simpa using (List.nodup_append.1 hsound.tidy.nodup).2.2 _ hstarted _ hfront

/-- A task that ends in its first turn leaves its worker to others. -/
theorem Sound.ends_launch (hsound : m.Sound) (hqueue : m.queue = first :: rest)
    (hidle : m.hasIdleWorker = true) :
    ((m.vacate rest).launch b first).endings = m.endings ∨
      m.EndsAlone b ((m.vacate rest).launch b first) first.ticket := by
  rw [launch_eq]
  generalize b.start first.task _ m.world = turn
  rcases m.firstTurn_cases rest first.ticket _ turn with hstays | ⟨hends, hrunning⟩
  · exact .inl hstays
  · refine .inr ⟨hends, by rw [hrunning, hsound.filter_running_eq hqueue], .inl ?_⟩
    obtain ⟨ownPlace, nextPlace, heq⟩ :=
      m.firstTurn_vacate_eq rest first.ticket (m.ringsFirst first.ticket) turn
    refine ⟨(congrArg Machine.lost heq :), (congrArg Machine.dropped heq :), ?_⟩
    rw [hasIdleWorker, hrunning, heq]
    exact hidle

/-- A worker that is lost is lost at the end of a task. -/
theorem Sound.ends_crash (hsound : m.Sound) (hqueue : m.queue = first :: rest)
    (hidle : m.hasIdleWorker = true) {wreck : Wreck ω ε}
    (hcall : m.crash? b first.task = some wreck) :
    m.EndsAlone b ((m.vacate rest).crash first.ticket wreck) first.ticket := by
  have hends : ((m.vacate rest).crash first.ticket wreck).endings =
      m.endings ++ [first.ticket] := by
    refine crash_induction (P := fun after => after.endings = m.endings ++ [first.ticket])
      (congrArg Tally.ended (m.tally_firstTurn rest first.ticket false wreck.turn))
      fun _ hended => ?_
    exact (congrArg Tally.ended (tally_desert _)).trans hended
  obtain ⟨hlost, hdropped⟩ := m.crash_losses rest first.ticket wreck
  have hsettings : ((m.vacate rest).crash first.ticket wreck).settings = m.settings :=
    (lasting_work (Work.crash hqueue hidle hcall)).settings
  refine ⟨hends, by rw [running_crash, hsound.filter_running_eq hqueue], .inr ⟨?_, hlost, ?_⟩⟩
  · exact ⟨first, rest, hqueue, rfl, by rw [hcall]; rfl⟩
  · rw [hdropped, isDeserted, hsettings, hlost, hqueue, List.length_append]
    simp

end TakenUp

/-- A task that ends in a later turn leaves its worker to others. -/
theorem Sound.ends_resume (hsound : m.Sound) {task : Running σ} (htask : task ∈ m.running)
    (cue : Cue) :
    (m.resume b task cue).endings = m.endings ∨
      m.EndsAlone b (m.resume b task cue) task.ticket := by
  obtain ⟨ownPlace, nextPlace, heq⟩ := m.resume_eq b task cue
  rcases finishTurn_cases _ task.ticket _ _ _ _ with hstays | ⟨hends, hothers⟩
  · left
    exact hstays
  · right
    have hrun : (m.resume b task cue).running = m.running.filter (·.ticket ≠ task.ticket) :=
      hothers
    have haway : (m.running.filter (·.ticket ≠ task.ticket)).map (·.ticket) =
        m.tally.running.filter (· ≠ task.ticket) := map_filter_ticket _ _ m.running
    have hless := Tally.length_filter_ne hsound.nodup_running (List.mem_map_of_mem htask)
    rw [← haway, List.length_map] at hless
    have hbusy : m.tally.running.length + m.lost.length ≤ m.settings.workers := hsound.busy_le
    have hlost : (m.resume b task cue).lost = m.lost := (congrArg Machine.lost heq :)
    have hsettings : (m.resume b task cue).settings = m.settings :=
      (congrArg Machine.settings heq :)
    refine ⟨hends, hrun, .inl ⟨hlost, (congrArg Machine.dropped heq :), ?_⟩⟩
    rw [hasIdleWorker, hsettings, hrun, hlost, decide_eq_true_eq]
    omega

/-- Whatever happens, at most one task ends by it. -/
theorem Sound.ends (hsound : m.Sound) (hhappening : Happening b m later) :
    later.endings = m.endings ∨ ∃ ticket, m.EndsAlone b later ticket := by
  cases hhappening with
  | change hchange =>
      cases hchange with
      | step hstep =>
          cases hstep with
          | work hwork =>
              cases hwork with
              | launch hqueue hidle =>
                  exact (hsound.ends_launch hqueue hidle).imp_right fun h => ⟨_, h⟩
              | crash hqueue hidle hcall => exact .inr ⟨_, hsound.ends_crash hqueue hidle hcall⟩
              | resume htask => exact (hsound.ends_resume htask _).imp_right fun h => ⟨_, h⟩
              | ring => exact .inl rfl
              | enterAll =>
                  left
                  simp [enterAll_eq, endings, List.filterMap_map, Event.ended?]
              | callerTurn hcaller =>
                  obtain ⟨_, -, -, heq⟩ | ⟨-, heq⟩ := callerTurn_cases hcaller <;> rw [heq]
                  · exact .inl (endings_note _ rfl)
                  · exact .inl (endings_note _ rfl)
          | finishClosing | giveUp => exact .inl (endings_note _ rfl)
      | clock | await => exact .inl rfl
      | closed => exact .inl (endings_note _ rfl)
      | shut =>
          left
          simp [shut_eq, noteAll, endings, List.filterMap_map, Function.comp_def, Event.ended?]
  | submit task =>
      left
      obtain ⟨-, -, hsubmit⟩ | ⟨error, -, hsubmit⟩ := m.submit_cases task
      · rw [hsubmit]
        exact endings_note _ rfl
      · rw [hsubmit]
        exact endings_note _ rfl
  | submitWait task patience inFront =>
      left
      rw [submitWait_eq]
      split
      · exact endings_note _ rfl
      split
      · exact endings_note _ rfl
      split
      · exact endings_note _ rfl
      · rfl
  | share => exact .inl rfl

/-! ## The guarantees -/

/-- What can be relied on at a moment of a pool's life. -/
structure Reliable (b : Behaviour τ σ ω ε) (m : Machine τ σ ω ε) : Prop where
  /-- What a submission returns is what the log tells of it. -/
  answered : ∀ task, (m.submit task).2.answer? m.nextTicket = some (m.submit task).1
  /-- Whatever happens from now on, an accepted task is kept, or was dropped for want of workers. -/
  kept : ∀ ticket, m.answer? ticket = some (.ok ()) →
    ∀ later, Reaches b m later → later.Keeps ticket
  /-- Whatever happens from now on, a refused task is not started. -/
  refused : ∀ ticket error, m.answer? ticket = some (.error error) →
    ∀ later, Reaches b m later → ticket ∉ later.starts.map (·.1)
  /-- Whatever happens next, at most one task ends, and no other task with it; its worker is idle
  again, or lost if the call of its function has panicked. -/
  ending : ∀ later, Happening b m later →
    later.endings = m.endings ∧ later.lost = m.lost ∧ later.dropped = m.dropped ∨
      ∃ ticket, m.EndsAlone b later ticket

theorem Sound.reliable (hsound : m.Sound) : m.Reliable b where
  answered := hsound.answer_submit
  kept ticket hanswer later hreaches := by
    have hstill := ((lasting_reaches hreaches).log.filterMap (·.event.accepted?)).subset
    exact (hsound.reaches hreaches).keeps (hstill (mem_accepted_of_answer hanswer))
  refused ticket error hanswer later hreaches := by
    have hstill := ((lasting_reaches hreaches).log.filterMap (·.event.refused?)).subset
    exact (hsound.reaches hreaches).not_started (hstill (mem_refusals_of_answer hanswer))
  ending later hhappening := by
    obtain hlosses | ⟨first, rest, wreck, hqueue, hidle, hcall, rfl⟩ :=
      losses_of_happening hhappening
    · exact (hsound.ends hhappening).imp_left fun hends => ⟨hends, hlosses⟩
    · exact .inr ⟨_, hsound.ends_crash hqueue hidle hcall⟩

/-- In a settled pool as many tasks run as there are workers left, or all that there are. -/
theorem Settled.length_running (hsettled : m.Settled) (hsound : m.Sound) :
    m.running.length =
      min (m.settings.workers - m.lost.length) (m.queue.length + m.running.length) := by
  have hbusy : m.running.length + m.lost.length ≤ m.settings.workers := by
    simpa [tally] using hsound.busy_le
  cases hqueue : m.queue with
  | nil =>
      simp only [List.length_nil, Nat.zero_add]
      omega
  | cons first rest =>
      have hnobody := hsettled.nobody_idles (by simp [hqueue])
      have hall : m.settings.workers ≤ m.running.length + m.lost.length := by
        simpa [hasIdleWorker] using hnobody
      omega

/-- What is kept in a pool, however it was set up, whatever its tasks do, and whatever it is asked
for. In every state that it reaches accepted tasks are kept as long as a worker is left, refused
ones are not started, and ends are ends of one task; closing the pool is one of the things that may
have happened, with or without giving up on the tasks. In every settled state as many tasks run as
workers are left, or all that there are. Where no call of a task's function panics, no worker is
ever lost and no task is dropped; so the number of workers stays what it was set to. -/
theorem conservation_of_run (b : Behaviour τ σ ω ε) (workers backlog taskTimeout : Nat)
    (world : ω) (circumstances : Circumstances) :
    let pool : Machine τ σ ω ε := fresh (.of workers backlog taskTimeout) world circumstances
    (∀ m, Reaches b pool m → m.Reliable b ∧ (b.NeverCrashes → m.lost = [] ∧ m.dropped = [])) ∧
      ∀ calls, Reaches b pool (pool.run b calls) ∧
        (pool.run b calls).running.length = min (max workers 1 - (pool.run b calls).lost.length)
          ((pool.run b calls).queue.length + (pool.run b calls).running.length) := by
  intro pool
  have hsound : pool.Sound := sound_fresh _ _ _
  constructor
  · intro m hreaches
    exact ⟨(hsound.reaches hreaches).reliable, fun hcalls => losses_of_neverCrashes hcalls hreaches⟩
  · intro calls
    have hreaches := reaches_run (b := b) hsound calls
    have hworkers : (pool.run b calls).settings.workers = max workers 1 :=
      congrArg Settings.workers (lasting_reaches hreaches).settings
    rw [← hworkers]
    exact ⟨hreaches,
      (settled_run b _ world circumstances calls).length_running (hsound.reaches hreaches)⟩

/-- A pool with one worker and room for two tasks that has accepted three: the second one's
function panics when it is called. A nanosecond later the worker comes to it. -/
def bereft : Drill.Squad :=
  (fresh (.of 1 2 1000) {}).run Drill.behaviour
    [.submit ⟨"first", .sleep 1⟩, .submit ⟨"second", .crash⟩, .submit ⟨"third", .instant⟩, .pass 1]

/-- Not every accepted task is kept, and not every worker: the panic of the second task has taken
the worker along, the third task is gone, and the pool refuses further ones although nobody has
closed it. -/
theorem third_dropped_of_bereft :
    bereft.answer? 2 = some (.ok ()) ∧ bereft.queue = [] ∧ bereft.running = [] ∧
      2 ∉ bereft.endings ∧ bereft.isOpen = true ∧
      ∀ task, (bereft.submit task).1 = .error .shutdown := by
  have hendings : bereft.endings = [0, 1] := by cbv
  have hrefuses : bereft.takesTasks = false := by cbv
  refine ⟨by cbv, by cbv, by cbv, by simp [hendings], by cbv, fun task => ?_⟩
  rw [submit_eq, hrefuses]
  rfl

end Upkeep.Pool.Machine
