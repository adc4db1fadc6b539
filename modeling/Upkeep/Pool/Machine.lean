/-
# The worker pool

A bounded queue in front of a number of workers. Tasks start in the order in which they are
accepted, each as soon as a worker is idle. A caller may wait for room in the queue; rooms are
given to waiting callers in their order, and nobody overtakes them. Closing the pool refuses all
later tasks and lets the accepted ones finish; if they do not in time, their contexts are
cancelled, but none is dropped for that.

A worker outlives the panic of a task that it runs. It does not outlive a panic in the call that
is to give it something to run: the worker is lost with the task. The pool goes on with the other
workers. With the last of them goes the queue with all that is in it, and from then on the pool
refuses every task as if it were closed.

When several things are due at one instant, they happen in the order in which they were begun to
be waited for. Each of them is a turn of its own: a worker goes on with its task and takes up
the next ones, a caller puts in its task or loses patience, the call that closed the pool
returns. Only a call that is waited for in the foreground goes before all others. A caller to
whom a worker has given room puts its task in at its own turn, so room that comes later in the
instant than its patience ends comes too late. A worker to whose task a deadline has come looks at
its task and at the clock, in either order, and cancels the task's context when it looks at the
clock.

Every submission has a ticket, and the log tells, in order, what became of each ticket.
-/

import Upkeep.Pool.Basic
import Upkeep.Timeline

namespace Upkeep.Pool

/-- A task that has been accepted and waits for a worker. -/
structure Queued (τ : Type) where
  ticket : Nat
  task : τ

/-- A task whose caller waits for room in the queue. -/
structure Waiting (τ : Type) where
  ticket : Nat
  task : τ
  /-- Until when the caller waits. -/
  expiry : Nat
  /-- Where the caller comes among those who are due at one instant. -/
  place : Nat

/-- A task that a worker has started, between two turns. -/
structure Running (σ : Type) where
  ticket : Nat
  deadline : Nat
  /-- Whether the worker has cancelled the task's context because of the deadline. -/
  rung : Bool
  /-- Where the task comes among those who are due at one instant. -/
  place : Nat
  state : σ
  pause : Pause

/-- The call that closed the pool, while it waits for the tasks to finish. -/
structure Closing where
  /-- Until when the call waits. -/
  limit : Nat
  /-- Where the call comes among those who are due at one instant. -/
  place : Nat

/-- Who can be due at an instant. -/
inductive Party where
  /-- The started task with a ticket. -/
  | task (ticket : Nat)
  /-- The caller that waits for room for the task with a ticket. -/
  | caller (ticket : Nat)
  /-- The call that closed the pool. -/
  | closer
deriving DecidableEq, Repr

/-- What happens in a pool. -/
inductive Event (ε : Type) where
  /-- A task has been put into the queue. -/
  | accepted (ticket : Nat)
  /-- A task will never be run. -/
  | refused (ticket : Nat) (error : PoolError)
  /-- A worker has taken a task up. -/
  | started (ticket : Nat) (context : Context)
  /-- A task has said something. -/
  | said (ticket : Nat) (context : Context) (word : ε)
  /-- A task is over. -/
  | ended (ticket : Nat)
  /-- A call to close the pool has returned. -/
  | closed (result : Except PoolError Unit)

/-- An event with the instant at which it happened. -/
structure Entry (ε : Type) where
  instant : Nat
  event : Event ε

/-- The state of a pool. -/
structure Machine (τ σ ω ε : Type) where
  settings : Settings
  world : ω
  circumstances : Circumstances := {}
  now : Nat := 0
  nextTicket : Nat := 0
  /-- The place behind all those that have been given. Places count from one. -/
  nextPlace : Nat := 1
  isOpen : Bool := true
  /-- Whether the contexts of all tasks are cancelled. -/
  gaveUp : Bool := false
  closing : Option Closing := none
  queue : List (Queued τ) := []
  /-- Callers who have been given room and have not put their tasks in yet. -/
  admitted : List (Waiting τ) := []
  waiting : List (Waiting τ) := []
  running : List (Running σ) := []
  /-- The tickets of the tasks whose workers have been lost with them. -/
  lost : List Nat := []
  /-- The tickets of the tasks that have gone with the queue. -/
  dropped : List Nat := []
  log : List (Entry ε) := []

namespace Machine

variable {τ σ ω ε : Type}

/-- Adds an event to the log. -/
def note (m : Machine τ σ ω ε) (event : Event ε) : Machine τ σ ω ε :=
  { m with log := m.log ++ [⟨m.now, event⟩] }

/-- What a task with a deadline sees now, if its worker has or has not cancelled its context. -/
def context (m : Machine τ σ ω ε) (deadline : Nat) (rung : Bool) : Context :=
  ⟨m.now, deadline, m.gaveUp || rung⟩

/-- How many tasks are in the queue, as long as the pool is open. Room that has been given away
counts as taken. -/
def size (m : Machine τ σ ω ε) : Nat :=
  if m.isOpen then m.queue.length + m.admitted.length else 0

/-- Whether another task fits into the queue. -/
def hasRoom (m : Machine τ σ ω ε) : Bool :=
  m.queue.length + m.admitted.length < m.settings.capacity

/-- Whether a worker is idle. -/
def hasIdleWorker (m : Machine τ σ ω ε) : Bool :=
  m.running.length + m.lost.length < m.settings.workers

/-- Whether all workers have been lost. -/
def isDeserted (m : Machine τ σ ω ε) : Bool :=
  m.settings.workers ≤ m.lost.length

/-- Whether no accepted task is left. -/
def isDrained (m : Machine τ σ ω ε) : Bool :=
  m.queue.isEmpty && m.running.isEmpty

/-! ## Turns of tasks -/

/-- Takes over what came of a task's turn. A task that now waits for an instant comes behind all
who wait already; any other one keeps its place. -/
def finishTurn (m : Machine τ σ ω ε) (ticket deadline : Nat) (rung : Bool) (place : Nat)
    (turn : Turn σ ω ε) : Machine τ σ ω ε :=
  let context := m.context deadline rung
  let heard := turn.said.foldl (fun m word => m.note (.said ticket context word))
    { m with world := turn.world }
  match turn.waits with
  | none => heard.note (.ended ticket)
  | some (state, pause) =>
    if pause.wake.isSome then
      { heard with
        running := heard.running ++ [⟨ticket, deadline, rung, heard.nextPlace, state, pause⟩]
        nextPlace := heard.nextPlace + 1 }
    else
      { heard with running := heard.running ++ [⟨ticket, deadline, rung, place, state, pause⟩] }

/-- When a task that starts now is told to stop. -/
def deadline (m : Machine τ σ ω ε) : Nat :=
  m.circumstances.deadlineAfter m.now m.settings.taskTimeout

/-- The first turn of a task on an idle worker, with its start written down. -/
def firstTurn (m : Machine τ σ ω ε) (ticket : Nat) (rung : Bool) (turn : Turn σ ω ε) :
    Machine τ σ ω ε :=
  finishTurn { m.note (.started ticket (m.context m.deadline rung)) with
    nextPlace := m.nextPlace + 1 } ticket m.deadline rung m.nextPlace turn

/-- Whether the worker that starts a task cancels its context before it looks at the task. -/
def ringsFirst (m : Machine τ σ ω ε) (ticket : Nat) : Bool :=
  !m.circumstances.taskFirst ticket && m.deadline ≤ m.now

/-- Starts a task on an idle worker. -/
def launch (b : Behaviour τ σ ω ε) (m : Machine τ σ ω ε) (queued : Queued τ) :
    Machine τ σ ω ε :=
  let rung := m.ringsFirst queued.ticket
  m.firstTurn queued.ticket rung (b.start queued.task (m.context m.deadline rung) m.world)

/-- Refuses the tasks of callers. -/
def refuseAll (m : Machine τ σ ω ε) (callers : List (Waiting τ)) (error : PoolError) :
    Machine τ σ ω ε :=
  callers.foldl (fun m caller => m.note (.refused caller.ticket error)) m

/-- The pool without a queue: the tasks in it are dropped, and the callers in front of it are
refused. -/
def desert (m : Machine τ σ ω ε) : Machine τ σ ω ε :=
  refuseAll
    { m with
      queue := []
      admitted := []
      waiting := []
      dropped := m.dropped ++ m.queue.map (·.ticket) }
    (m.admitted ++ m.waiting) .shutdown

/-- An idle worker calls the function of a task, and is lost because the call panics. -/
def wrecked (m : Machine τ σ ω ε) (ticket : Nat) (wreck : Wreck ω ε) : Machine τ σ ω ε :=
  { m.firstTurn ticket false wreck.turn with lost := m.lost ++ [ticket] }

/-- A worker is lost. If it was the last one, the queue goes with it. -/
def crash (m : Machine τ σ ω ε) (ticket : Nat) (wreck : Wreck ω ε) : Machine τ σ ω ε :=
  let left := m.wrecked ticket wreck
  if left.isDeserted then left.desert else left

/-- What a waiting task gets its turn for, if anything that it waits for has happened. -/
def cue? (m : Machine τ σ ω ε) (task : Running σ) : Option Cue :=
  if task.pause.wake.any (· ≤ m.now) then some .wake
  else if task.pause.heedsCancel && (m.context task.deadline task.rung).cancelled then
    some .cancel
  else none

/-- Gives a started task its turn. -/
def resume (b : Behaviour τ σ ω ε) (m : Machine τ σ ω ε) (task : Running σ) (cue : Cue) :
    Machine τ σ ω ε :=
  finishTurn { m with running := m.running.filter (·.ticket ≠ task.ticket) }
    task.ticket task.deadline task.rung task.place
    (b.resume task.state cue (m.context task.deadline task.rung) m.world)

/-- A worker looks at its task, which goes on if anything that it waits for has happened. -/
def attend (b : Behaviour τ σ ω ε) (m : Machine τ σ ω ε) (ticket : Nat) : Machine τ σ ω ε :=
  match m.running.find? (·.ticket = ticket) with
  | none => m
  | some task => ((m.cue? task).map (m.resume b task)).getD m

/-- A worker looks at the clock, and cancels the context of its task if the deadline has come. -/
def ring (m : Machine τ σ ω ε) (ticket : Nat) : Machine τ σ ω ε :=
  { m with
    running := m.running.map fun task =>
      if task.ticket = ticket ∧ task.deadline ≤ m.now then { task with rung := true } else task }

/-- A worker looks at the clock, and then at its task. -/
def watch (b : Behaviour τ σ ω ε) (m : Machine τ σ ω ε) (ticket : Nat) : Machine τ σ ω ε :=
  (m.ring ticket).attend b ticket

/-! ## The queue -/

/-- Puts a task at the end of the queue. -/
def enqueue (m : Machine τ σ ω ε) (ticket : Nat) (task : τ) : Machine τ σ ω ε :=
  note { m with queue := m.queue ++ [⟨ticket, task⟩] } (.accepted ticket)

/-- Gives room, if there is any, to the first waiting caller. -/
def admitNext (m : Machine τ σ ω ε) : Machine τ σ ω ε :=
  match m.waiting with
  | [] => m
  | first :: rest =>
    if m.hasRoom then { m with waiting := rest, admitted := m.admitted ++ [first] } else m

/-- The callers who have been given room put their tasks in. -/
def enterAll (m : Machine τ σ ω ε) : Machine τ σ ω ε :=
  m.admitted.foldl (fun m caller => m.enqueue caller.ticket caller.task) { m with admitted := [] }

/-- The pool whose first task in the queue has just left it for a worker, which has made room. -/
def vacate (m : Machine τ σ ω ε) (rest : List (Queued τ)) : Machine τ σ ω ε :=
  admitNext { m with queue := rest }

/-- What calling the function of a task comes to now, if the call panics. -/
def crash? (b : Behaviour τ σ ω ε) (m : Machine τ σ ω ε) (task : τ) : Option (Wreck ω ε) :=
  b.crash? task (m.context m.deadline false) m.world

/-- The pool whose first task in the queue is taken up by an idle worker. -/
def takeUp (b : Behaviour τ σ ω ε) (m : Machine τ σ ω ε) (first : Queued τ)
    (rest : List (Queued τ)) : Machine τ σ ω ε :=
  match m.crash? b first.task with
  | some wreck => (m.vacate rest).crash first.ticket wreck
  | none => ((m.vacate rest).launch b first).watch b first.ticket

/-- Those who stand in front of the workers: the queue, the callers with room and those without. -/
def front (m : Machine τ σ ω ε) : List (Queued τ) × List (Waiting τ) × List (Waiting τ) :=
  (m.queue, m.admitted, m.waiting)

/-- A task's turn leaves all alone who stand in front of the workers. -/
@[simp] theorem front_finishTurn (m : Machine τ σ ω ε) (ticket deadline : Nat) (rung : Bool)
    (place : Nat) (turn : Turn σ ω ε) :
    (m.finishTurn ticket deadline rung place turn).front = m.front := by
  have hsaid : ∀ (words : List ε) (m : Machine τ σ ω ε) (context : Context),
      (words.foldl (fun m word => m.note (.said ticket context word)) m).front = m.front := by
    intro words
    induction words with
    | nil => intros; rfl
    | cons word words ih => intro m context; exact ih (m.note _) context
  unfold finishTurn
  simp only
  split
  · exact hsaid ..
  · split <;> exact hsaid ..

/-- So does the look of a worker at its task. -/
@[simp] theorem front_attend (b : Behaviour τ σ ω ε) (m : Machine τ σ ω ε) (ticket : Nat) :
    (m.attend b ticket).front = m.front := by
  unfold attend
  split
  · rfl
  next task _ =>
    cases m.cue? task with
    | none => rfl
    | some cue => exact front_finishTurn ..

@[simp] theorem front_watch (b : Behaviour τ σ ω ε) (m : Machine τ σ ω ε) (ticket : Nat) :
    (m.watch b ticket).front = m.front :=
  front_attend b (m.ring ticket) ticket

/-- Refusing somebody is all that happens to them. -/
@[simp] theorem front_refuseAll (m : Machine τ σ ω ε) (callers : List (Waiting τ))
    (error : PoolError) : (m.refuseAll callers error).front = m.front := by
  unfold refuseAll
  induction callers generalizing m with
  | nil => rfl
  | cons caller callers ih => exact ih (m.note _)

/-- Giving room leaves the queue alone, and loses no caller. -/
theorem admitNext_queue (m : Machine τ σ ω ε) :
    m.admitNext.queue = m.queue ∧
      m.admitNext.admitted ++ m.admitNext.waiting = m.admitted ++ m.waiting := by
  unfold admitNext
  split
  · exact ⟨rfl, rfl⟩
  next first rest hwaiting =>
    split
    · exact ⟨rfl, by simp [hwaiting]⟩
    · exact ⟨rfl, rfl⟩

/-- After a call that panics, those who stood in front of the workers still do, or nobody does. -/
theorem front_crash (m : Machine τ σ ω ε) (ticket : Nat) (wreck : Wreck ω ε) :
    (m.crash ticket wreck).front = m.front ∨ (m.crash ticket wreck).front = ([], [], []) := by
  unfold crash
  simp only
  split
  · exact .inr (front_refuseAll ..)
  · exact .inl (front_finishTurn ..)

/-- Taking up a task leaves the rest of the queue, and loses no caller; or it leaves nobody in
front of the workers. -/
theorem takeUp_queue (b : Behaviour τ σ ω ε) (m : Machine τ σ ω ε) (first : Queued τ)
    (rest : List (Queued τ)) :
    (m.takeUp b first rest).queue = rest ∧
        (m.takeUp b first rest).admitted ++ (m.takeUp b first rest).waiting =
          m.admitted ++ m.waiting ∨
      (m.takeUp b first rest).front = ([], [], []) := by
  have hvacate : ∀ after : Machine τ σ ω ε, after.front = (m.vacate rest).front →
      after.queue = rest ∧ after.admitted ++ after.waiting = m.admitted ++ m.waiting := by
    intro after hfront
    simp only [front, Prod.mk.injEq] at hfront
    rw [hfront.1, hfront.2.1, hfront.2.2]
    exact admitNext_queue { m with queue := rest }
  unfold takeUp
  split
  next wreck _ =>
    rcases front_crash (m.vacate rest) first.ticket wreck with hsame | hnobody
    · exact .inl (hvacate _ hsame)
    · exact .inr hnobody
  · exact .inl (hvacate _ ((front_watch ..).trans (front_finishTurn ..)))

theorem length_queue_takeUp_le (b : Behaviour τ σ ω ε) (m : Machine τ σ ω ε) (first : Queued τ)
    (rest : List (Queued τ)) : (m.takeUp b first rest).queue.length ≤ rest.length := by
  rcases takeUp_queue b m first rest with ⟨hrest, -⟩ | hnobody
  · exact Nat.le_of_eq (congrArg List.length hrest)
  · have hnone : (m.takeUp b first rest).queue = [] := congrArg Prod.fst hnobody
    simp [hnone]

/-- Starts tasks from the queue until no worker is idle or the queue is empty. -/
def fill (b : Behaviour τ σ ω ε) (m : Machine τ σ ω ε) : Machine τ σ ω ε :=
  match _hqueue : m.queue with
  | [] => m
  | first :: rest => if m.hasIdleWorker then fill b (m.takeUp b first rest) else m
termination_by m.queue.length
decreasing_by
  have := length_queue_takeUp_le b m first rest
  rw [_hqueue, List.length_cons]
  omega

/-- Starting tasks brings no caller, and loses none unless all are refused. -/
theorem callers_fill (b : Behaviour τ σ ω ε) (m : Machine τ σ ω ε) :
    (m.fill b).admitted ++ (m.fill b).waiting = m.admitted ++ m.waiting ∨
      (m.fill b).front = ([], [], []) := by
  fun_induction fill b m with
  | case1 => exact .inl rfl
  | case2 m first rest _ _ ih =>
    rcases takeUp_queue b m first rest with ⟨-, hcallers⟩ | hnobody
    · rwa [hcallers] at ih
    · right
      rcases ih with hcallers | hstill
      · have hqueue : (m.takeUp b first rest).queue = [] := congrArg Prod.fst hnobody
        rw [fill]
        split
        · exact hnobody
        next hsome => rw [hqueue] at hsome; cases hsome
      · exact hstill
  | case3 => exact .inl rfl

/-- After the callers with room have put their tasks in, none of them is left, and those without
room still wait. -/
theorem enterAll_callers (m : Machine τ σ ω ε) :
    m.enterAll.admitted = [] ∧ m.enterAll.waiting = m.waiting := by
  have hall : ∀ (callers : List (Waiting τ)) (m : Machine τ σ ω ε),
      (callers.foldl (fun m caller => m.enqueue caller.ticket caller.task) m).admitted =
          m.admitted ∧
        (callers.foldl (fun m caller => m.enqueue caller.ticket caller.task) m).waiting =
          m.waiting := by
    intro callers
    induction callers with
    | nil => intros; exact ⟨rfl, rfl⟩
    | cons caller callers ih => intro m; exact ih (m.enqueue ..)
  exact hall m.admitted _

/-- Lets callers with room put their tasks in and idle workers take tasks up, until neither is
possible. -/
def follow (b : Behaviour τ σ ω ε) (m : Machine τ σ ω ε) : Machine τ σ ω ε :=
  let after := m.enterAll.fill b
  if _hadmitted : after.admitted = [] then after else follow b after
termination_by m.waiting.length
decreasing_by
  have hcallers : after.admitted.length + after.waiting.length = m.waiting.length := by
    rcases callers_fill b m.enterAll with hsame | hnobody
    · have hfill := congrArg List.length hsame
      rwa [(enterAll_callers m).1, (enterAll_callers m).2, List.length_append] at hfill
    · exact absurd (congrArg (·.2.1) hnobody) _hadmitted
  have hpos := List.length_pos_iff.2 _hadmitted
  change after.waiting.length < m.waiting.length
  omega

/-! ## Turns of all who are due -/

/-- After the turn of a task its worker takes up the next tasks if it has become idle, unless
another worker has stood idle before it. -/
def refill (b : Behaviour τ σ ω ε) (m after : Machine τ σ ω ε) : Machine τ σ ω ε :=
  if m.hasIdleWorker then after else after.fill b

/-- A task goes on. -/
def taskTurn (b : Behaviour τ σ ω ε) (m : Machine τ σ ω ε) (task : Running σ) (cue : Cue) :
    Machine τ σ ω ε :=
  m.refill b (m.resume b task cue)

/-- A worker is woken for its task and looks at it, and at the clock. Looking at the clock makes
it look at the task once more. -/
def look (b : Behaviour τ σ ω ε) (m : Machine τ σ ω ε) (ticket : Nat) : Machine τ σ ω ε :=
  if m.circumstances.taskFirst ticket then (m.attend b ticket).watch b ticket
  else m.watch b ticket

/-- A caller whose patience ends puts its task in if it has been given room, and is refused if it
still waits for that. -/
def callerTurn (m : Machine τ σ ω ε) (ticket : Nat) : Machine τ σ ω ε :=
  match m.admitted.find? (·.ticket = ticket) with
  | some caller =>
    enqueue { m with admitted := m.admitted.filter (·.ticket ≠ ticket) } ticket caller.task
  | none =>
    if m.waiting.any (·.ticket = ticket) then
      note { m with waiting := m.waiting.filter (·.ticket ≠ ticket) } (.refused ticket .timeout)
    else m

/-- The call that closed the pool returns well. -/
def finishClosing (m : Machine τ σ ω ε) : Machine τ σ ω ε :=
  note { m with closing := none } (.closed (.ok ()))

/-- The call that closed the pool gives up: all contexts are cancelled. -/
def giveUp (m : Machine τ σ ω ε) : Machine τ σ ω ε :=
  note { m with closing := none, gaveUp := true } (.closed (.error .shutdownTimeout))

/-- Gives its turn to someone who is due. -/
def giveTurn (b : Behaviour τ σ ω ε) (m : Machine τ σ ω ε) : Party → Machine τ σ ω ε
  | .task ticket => m.refill b (m.look b ticket)
  | .caller ticket => m.callerTurn ticket
  | .closer => if m.isDrained then m.finishClosing else m.giveUp

/-- Whether the worker of a task is woken by an alarm: the task's own, for an instant to wake at,
or the one for its deadline. -/
def isAlarmed (m : Machine τ σ ω ε) (task : Running σ) : Bool :=
  task.pause.wake.any (· ≤ m.now) || !task.rung && task.deadline ≤ m.now

/-- Whose time has come now, each with its place. -/
def alarmedParties (m : Machine τ σ ω ε) : List (Nat × Party) :=
  ((m.running.filter m.isAlarmed).map fun task => (task.place, .task task.ticket)) ++
    ((m.waiting.filter fun caller => caller.expiry ≤ m.now).map
      fun caller => (caller.place, .caller caller.ticket)) ++
    ((m.closing.toList.filter fun closing => closing.limit ≤ m.now).map
      fun closing => (closing.place, .closer))

/-- The tasks that wait for nothing but their contexts, which have been cancelled, each with its
place. -/
def cancelledParties (m : Machine τ σ ω ε) : List (Nat × Party) :=
  (m.running.filter fun task => (m.cue? task).isSome && !m.isAlarmed task).map
    fun task => (task.place, .task task.ticket)

/-- Who gets a turn now: all whose time has come, in the order of their places, and then the
tasks whose contexts have been cancelled, the youngest first. -/
def dueParties (m : Machine τ σ ω ε) : List Party :=
  (m.alarmedParties.mergeSort (fun x y => x.1 ≤ y.1) ++
    m.cancelledParties.mergeSort (fun x y => y.1 ≤ x.1)).map (·.2)

/-- Gives everyone who is due a turn, and lets happen what follows from that. -/
def round (b : Behaviour τ σ ω ε) (m : Machine τ σ ω ε) : Machine τ σ ω ε :=
  (m.dueParties.foldl (giveTurn b) m).follow b

/-- The call that closed the pool returns once no task is left. -/
def conclude (m : Machine τ σ ω ε) : Machine τ σ ω ε :=
  if m.closing.isSome && m.isDrained then m.finishClosing else m

/-- Lets everything happen that can happen at this instant. The second round is for those whose
contexts are given up in the first one. -/
def settle (b : Behaviour τ σ ω ε) (m : Machine τ σ ω ε) : Machine τ σ ω ε :=
  ((m.round b).round b).conclude

/-! ## Calls -/

/-- The place of a call that begins to wait now. -/
def placeOf (m : Machine τ σ ω ε) (inFront : Bool) : Nat :=
  if inFront then 0 else m.nextPlace

/-- Whether the pool takes tasks, if there is room: it is open and a worker is left. -/
def takesTasks (m : Machine τ σ ω ε) : Bool :=
  m.isOpen && !m.isDeserted

/-- Puts a task into the queue, if the pool takes tasks and there is room. -/
def submit (m : Machine τ σ ω ε) (task : τ) : Except PoolError Unit × Machine τ σ ω ε :=
  let ticket := m.nextTicket
  let m := { m with nextTicket := ticket + 1 }
  if !m.takesTasks then (.error .shutdown, m.note (.refused ticket .shutdown))
  else if m.hasRoom then (.ok (), m.enqueue ticket task)
  else (.error .queueFull, m.note (.refused ticket .queueFull))

/-- Puts a task into the queue, or lets its caller wait for room as long as `patience`, perhaps
in the foreground. Gives the ticket; the log will tell what becomes of it. -/
def submitWait (m : Machine τ σ ω ε) (task : τ) (patience : Nat) (inFront : Bool) :
    Nat × Machine τ σ ω ε :=
  let ticket := m.nextTicket
  let m := { m with nextTicket := ticket + 1 }
  let after :=
    if !m.takesTasks then m.note (.refused ticket .shutdown)
    else if m.hasRoom && m.waiting.isEmpty then
      m.enqueue ticket task
    else if patience = 0 then m.note (.refused ticket .timeout)
    else
      { m with
        waiting := m.waiting ++ [⟨ticket, task, m.now + patience, m.placeOf inFront⟩]
        nextPlace := m.nextPlace + 1 }
  (ticket, after)

/-- Closes the pool and begins to wait for its tasks, as long as `patience` and perhaps in the
foreground. Without any patience the tasks are given up at once, even if there are none, because
no worker has gone home by then, unless all have been lost before. Callers that wait for room are
refused. A pool that is closed already is left alone. -/
def close (b : Behaviour τ σ ω ε) (m : Machine τ σ ω ε) (patience : Nat) (inFront : Bool) :
    Machine τ σ ω ε :=
  if m.isOpen then
    let closed :=
      refuseAll { m with isOpen := false, admitted := [], waiting := [] }
        (m.admitted ++ m.waiting) .shutdown
    settle b <|
      if patience = 0 ∧ m.isDeserted = false then closed.giveUp
      else
        { closed with
          closing := some ⟨m.now + patience, m.placeOf inFront⟩
          nextPlace := m.nextPlace + 1 }
  else m.note (.closed (.ok ()))

/-- Releases the started tasks that `chosen` picks and that wait for a release. -/
def release (b : Behaviour τ σ ω ε) (m : Machine τ σ ω ε) (chosen : σ → Bool) :
    Machine τ σ ω ε :=
  ((m.running.filter fun task => task.pause.heedsRelease && chosen task.state).foldl
    (fun m task => m.taskTurn b task .release) m).settle b

/-! ## Time -/

/-- The instants ahead at which something is due. All alarms are taken to ring at the very instant
for which they are set; a clock that wakes its sleepers only at whole milliseconds does so when
these instants are whole milliseconds. -/
def dueInstants (m : Machine τ σ ω ε) : List Nat :=
  (m.running.filterMap (fun task => task.pause.wake) ++
    (m.running.filter fun task => !task.rung).map (fun task => task.deadline) ++
    m.waiting.map (fun caller => caller.expiry) ++
    m.closing.toList.map (fun closing => closing.limit)).filter (m.now < ·)

/-- Brings the pool to an instant. -/
def arrive (b : Behaviour τ σ ω ε) (instant : Nat) (m : Machine τ σ ω ε) : Machine τ σ ω ε :=
  settle b { m with now := instant }

/-- Whether the caller with a ticket still waits for room. -/
def isWaiting (m : Machine τ σ ω ε) (ticket : Nat) : Bool :=
  (m.admitted ++ m.waiting).any fun caller => caller.ticket = ticket

/-- What was answered to the submission with a ticket. -/
def answer? (m : Machine τ σ ω ε) (ticket : Nat) : Option (Except PoolError Unit) :=
  m.log.findSome? fun entry =>
    match entry.event with
    | .accepted other => if other = ticket then some (.ok ()) else none
    | .refused other error => if other = ticket then some (.error error) else none
    | _ => none

/-- What the latest call to close the pool that has returned was answered. -/
def closeResult? (m : Machine τ σ ω ε) : Option (Except PoolError Unit) :=
  m.log.reverse.findSome? fun entry =>
    match entry.event with
    | .closed result => some result
    | _ => none

end Machine

end Upkeep.Pool
