/-
# Single steps of a worker pool

A pool does a few things again and again: a worker takes up the first task of the queue, and runs
it or is lost with it; a started task gets a turn, its context is cancelled, callers put their
tasks in or lose patience. That is the work of a pool. `Step` adds the return of the closing call,
and `Change` what reaches the pool from outside, apart from the submissions.

Only a submission hands out a ticket, and only a task from the queue is started. So the tickets of
those who were started and of those who stand in front of the workers stay distinct, which is
what makes a ticket a name: no task is started twice.
-/

import Mathlib.Data.List.Perm.Subperm
import Mathlib.Logic.Relation
import Upkeep.Pool.Clock

namespace Upkeep.Pool

variable {τ σ ω ε : Type}

/-- The task that an event is the start of, with its context. -/
def Event.start? : Event ε → Option (Nat × Context)
  | .started ticket context => some (ticket, context)
  | _ => none

namespace Machine

/-! ## What a turn leaves behind -/

/-- What is written down of a turn: what the task said and, if it is over, that it ended. -/
def turnEvents (m : Machine τ σ ω ε) (ticket deadline : Nat) (rung : Bool)
    (turn : Turn σ ω ε) : List (Event ε) :=
  turn.said.map (.said ticket (m.context deadline rung)) ++
    if turn.waits.isNone then [.ended ticket] else []

/-- The task that waits after a turn, if it is not over. -/
def paused (ticket deadline : Nat) (rung : Bool) (place : Nat) (turn : Turn σ ω ε) :
    List (Running σ) :=
  (turn.waits.map fun wait => ⟨ticket, deadline, rung, place, wait.1, wait.2⟩).toList

/-- The task that waits after a turn is still told to stop when it was, and what it waits for is
what the turn has asked for. -/
theorem mem_paused {ticket deadline place : Nat} {rung : Bool} {turn : Turn σ ω ε}
    {task : Running σ} (htask : task ∈ paused ticket deadline rung place turn) :
    task.ticket = ticket ∧ task.deadline = deadline ∧ task.rung = rung ∧
      turn.waits = some (task.state, task.pause) := by
  unfold paused at htask
  cases hwaits : turn.waits with
  | none => simp [hwaits] at htask
  | some wait =>
      obtain rfl : task = ⟨ticket, deadline, rung, place, wait.1, wait.2⟩ := by
        simpa [hwaits] using htask
      exact ⟨rfl, rfl, rfl, rfl⟩

/-- The pool with events added to its log. -/
def noteAll (m : Machine τ σ ω ε) (events : List (Event ε)) : Machine τ σ ω ε :=
  { m with log := m.log ++ events.map fun event => ⟨m.now, event⟩ }

theorem foldl_note {α : Type} (event : α → Event ε) (xs : List α) (m : Machine τ σ ω ε) :
    xs.foldl (fun m x => m.note (event x)) m = m.noteAll (xs.map event) := by
  induction xs generalizing m with
  | nil => simp [noteAll]
  | cons x xs ih =>
      rw [List.foldl_cons, ih]
      simp [noteAll, note]

/-- A turn changes the world and the log, and the task stays if it is not over. Apart from the
places in line everything else is as before. -/
theorem finishTurn_eq (m : Machine τ σ ω ε) (ticket deadline : Nat) (rung : Bool) (place : Nat)
    (turn : Turn σ ω ε) :
    ∃ ownPlace nextPlace, m.finishTurn ticket deadline rung place turn =
      { m with
        world := turn.world
        running := m.running ++ paused ticket deadline rung ownPlace turn
        nextPlace
        log := m.log ++
          (m.turnEvents ticket deadline rung turn).map fun event => ⟨m.now, event⟩ } := by
  unfold finishTurn
  simp only [foldl_note]
  cases hwaits : turn.waits with
  | none => exact ⟨0, m.nextPlace, by simp [noteAll, note, turnEvents, paused, hwaits]⟩
  | some wait =>
      obtain ⟨state, pause⟩ := wait
      by_cases hwake : pause.wake.isSome
      · exact ⟨m.nextPlace, m.nextPlace + 1,
          by simp [noteAll, turnEvents, paused, hwaits, hwake]⟩
      · exact ⟨place, m.nextPlace, by simp [noteAll, turnEvents, paused, hwaits, hwake]⟩

theorem refuseAll_eq (m : Machine τ σ ω ε) (callers : List (Waiting τ)) (error : PoolError) :
    m.refuseAll callers error =
      m.noteAll (callers.map fun caller => .refused caller.ticket error) :=
  foldl_note (fun caller : Waiting τ => .refused caller.ticket error) callers m

/-- The callers who have room put their tasks in all at once. -/
theorem enterAll_eq (m : Machine τ σ ω ε) :
    m.enterAll =
      { m with
        queue := m.queue ++ m.admitted.map fun caller => ⟨caller.ticket, caller.task⟩
        admitted := []
        log := m.log ++ m.admitted.map fun caller => ⟨m.now, .accepted caller.ticket⟩ } := by
  have hall : ∀ (callers : List (Waiting τ)) (m : Machine τ σ ω ε),
      callers.foldl (fun m caller => m.enqueue caller.ticket caller.task) m =
        { m with
          queue := m.queue ++ callers.map fun caller => ⟨caller.ticket, caller.task⟩
          log := m.log ++ callers.map fun caller => ⟨m.now, .accepted caller.ticket⟩ } := by
    intro callers
    induction callers with
    | nil => intro m; simp
    | cons caller callers ih =>
        intro m
        rw [List.foldl_cons, ih]
        simp [enqueue, note]
  exact hall m.admitted _

/-- Giving room moves callers, and nothing else. -/
theorem admitNext_eq (m : Machine τ σ ω ε) :
    m.admitNext =
      { m with admitted := m.admitNext.admitted, waiting := m.admitNext.waiting } := by
  unfold admitNext
  split
  · rfl
  · split <;> rfl

/-- A task that leaves the queue makes room, and changes nothing else. -/
theorem vacate_eq (m : Machine τ σ ω ε) (rest : List (Queued τ)) :
    m.vacate rest =
      { m with
        queue := rest
        admitted := (m.vacate rest).admitted
        waiting := (m.vacate rest).waiting } :=
  admitNext_eq _

/-- Whoever is taken up leaves the queue, is written down as started and has a first turn. -/
theorem firstTurn_vacate_eq (m : Machine τ σ ω ε) (rest : List (Queued τ)) (ticket : Nat)
    (rung : Bool) (turn : Turn σ ω ε) :
    ∃ ownPlace nextPlace, (m.vacate rest).firstTurn ticket rung turn =
      { m with
        world := turn.world
        queue := rest
        admitted := (m.vacate rest).admitted
        waiting := (m.vacate rest).waiting
        running := m.running ++ paused ticket m.deadline rung ownPlace turn
        nextPlace
        log := m.log ++ (.started ticket (m.context m.deadline rung) ::
          m.turnEvents ticket m.deadline rung turn).map fun event => ⟨m.now, event⟩ } := by
  obtain ⟨ownPlace, nextPlace, heq⟩ := finishTurn_eq
    { note { m with queue := rest } (.started ticket (m.context m.deadline rung)) with
      admitted := (m.vacate rest).admitted
      waiting := (m.vacate rest).waiting
      nextPlace := m.nextPlace + 1 } ticket m.deadline rung m.nextPlace turn
  refine ⟨ownPlace, nextPlace, ?_⟩
  rw [vacate_eq]
  refine Eq.trans heq ?_
  rw [List.map_cons, List.append_cons]
  rfl

/-- The first turn of a task that a worker has taken up. -/
theorem launch_eq (b : Behaviour τ σ ω ε) (m : Machine τ σ ω ε) (first : Queued τ)
    (rest : List (Queued τ)) :
    let rung := m.ringsFirst first.ticket
    let turn := b.start first.task (m.context m.deadline rung) m.world
    (m.vacate rest).launch b first = (m.vacate rest).firstTurn first.ticket rung turn := by
  rw [vacate_eq]
  rfl

/-- What a call that panics leaves behind: the task is over, and so is its worker. -/
theorem wrecked_eq (m : Machine τ σ ω ε) (rest : List (Queued τ)) (ticket : Nat)
    (wreck : Wreck ω ε) :
    ∃ nextPlace, (m.vacate rest).wrecked ticket wreck =
      { m with
        world := wreck.world
        queue := rest
        admitted := (m.vacate rest).admitted
        waiting := (m.vacate rest).waiting
        nextPlace
        lost := m.lost ++ [ticket]
        log := m.log ++ (.started ticket (m.context m.deadline false) ::
          m.turnEvents ticket m.deadline false (wreck.turn (σ := σ))).map
            fun event => ⟨m.now, event⟩ } := by
  obtain ⟨ownPlace, nextPlace, heq⟩ := firstTurn_vacate_eq m rest ticket false wreck.turn
  have hlost : (m.vacate rest).lost = m.lost := by rw [vacate_eq]
  refine ⟨nextPlace, ?_⟩
  rw [wrecked, heq, hlost]
  simp [paused, Wreck.turn]

/-- Without workers nobody is left in front of them. -/
theorem desert_eq (m : Machine τ σ ω ε) :
    m.desert =
      noteAll
        { m with
          queue := []
          admitted := []
          waiting := []
          dropped := m.dropped ++ m.queue.map (·.ticket) }
        ((m.admitted ++ m.waiting).map fun caller => .refused caller.ticket .shutdown) :=
  refuseAll_eq ..

/-- What holds of the pool that has lost a worker, and of the pool that has lost its queue with the
last one, holds after a crash. -/
theorem crash_induction {P : Machine τ σ ω ε → Prop} {m : Machine τ σ ω ε} {ticket : Nat}
    {wreck : Wreck ω ε} (hwrecked : P (m.wrecked ticket wreck))
    (hdesert : (m.wrecked ticket wreck).isDeserted = true → P (m.wrecked ticket wreck) →
      P (m.wrecked ticket wreck).desert) : P (m.crash ticket wreck) := by
  unfold crash
  simp only
  split
  next hdeserted => exact hdesert hdeserted hwrecked
  · exact hwrecked

theorem running_crash (m : Machine τ σ ω ε) (rest : List (Queued τ)) (ticket : Nat)
    (wreck : Wreck ω ε) : ((m.vacate rest).crash ticket wreck).running = m.running := by
  refine crash_induction (P := fun after => after.running = m.running) ?_ fun _ hstill => ?_
  · obtain ⟨nextPlace, heq⟩ := m.wrecked_eq rest ticket wreck
    rw [heq]
  · rwa [desert_eq]

/-- A turn of a started task. -/
theorem resume_eq (b : Behaviour τ σ ω ε) (m : Machine τ σ ω ε) (task : Running σ) (cue : Cue) :
    let turn := b.resume task.state cue (m.context task.deadline task.rung) m.world
    ∃ ownPlace nextPlace, m.resume b task cue =
      { m with
        world := turn.world
        running := m.running.filter (·.ticket ≠ task.ticket) ++
          paused task.ticket task.deadline task.rung ownPlace turn
        nextPlace
        log := m.log ++ (m.turnEvents task.ticket task.deadline task.rung turn).map
          fun event => ⟨m.now, event⟩ } :=
  finishTurn_eq ..

/-- A caller who puts a task in, or is refused, when patience ends. -/
theorem callerTurn_cases {m : Machine τ σ ω ε} {caller : Waiting τ}
    (hcaller : caller ∈ m.admitted ++ m.waiting) :
    (∃ found ∈ m.admitted, found.ticket = caller.ticket ∧
        m.callerTurn caller.ticket =
          enqueue { m with admitted := m.admitted.filter (·.ticket ≠ caller.ticket) }
            caller.ticket found.task) ∨
      caller ∈ m.waiting ∧ m.callerTurn caller.ticket =
        note { m with waiting := m.waiting.filter (·.ticket ≠ caller.ticket) }
          (.refused caller.ticket .timeout) := by
  unfold callerTurn
  cases hfind : m.admitted.find? (·.ticket = caller.ticket) with
  | some found =>
      have hsame : found.ticket = caller.ticket := by simpa using List.find?_some hfind
      exact .inl ⟨found, List.mem_of_find?_eq_some hfind, hsame, rfl⟩
  | none =>
      have hwaiting : caller ∈ m.waiting := by
        apply (List.mem_append.1 hcaller).resolve_left
        intro hadmitted
        simpa using List.find?_eq_none.1 hfind caller hadmitted
      refine .inr ⟨hwaiting, if_pos ?_⟩
      exact List.any_eq_true.2 ⟨caller, hwaiting, by simp⟩

/-- The turn of a caller who is gone is none at all. -/
theorem callerTurn_of_gone {m : Machine τ σ ω ε} {ticket : Nat}
    (hgone : ∀ caller ∈ m.admitted ++ m.waiting, caller.ticket ≠ ticket) :
    m.callerTurn ticket = m := by
  have hadmitted : m.admitted.find? (·.ticket = ticket) = none := by
    rw [List.find?_eq_none]
    intro caller hcaller
    simpa using hgone caller (List.mem_append_left _ hcaller)
  have hwaiting : m.waiting.any (·.ticket = ticket) = false := by
    rw [List.any_eq_false]
    intro caller hcaller
    simpa using hgone caller (List.mem_append_right _ hcaller)
  rw [callerTurn, hadmitted, hwaiting]
  rfl

/-! ## Steps -/

/-- What a waiting task may get a turn for: what it waits for has come, or it is released. -/
def Heeds (m : Machine τ σ ω ε) (task : Running σ) (cue : Cue) : Prop :=
  m.cue? task = some cue ∨ cue = .release ∧ task.pause.heedsRelease = true

/-- What workers and callers do, one thing at a time. -/
inductive Work (b : Behaviour τ σ ω ε) : Machine τ σ ω ε → Machine τ σ ω ε → Prop
  | launch {m : Machine τ σ ω ε} {first : Queued τ} {rest : List (Queued τ)}
      (hqueue : m.queue = first :: rest) (hidle : m.hasIdleWorker = true)
      (hcall : m.crash? b first.task = none) : Work b m ((m.vacate rest).launch b first)
  | crash {m : Machine τ σ ω ε} {first : Queued τ} {rest : List (Queued τ)}
      {wreck : Wreck ω ε} (hqueue : m.queue = first :: rest) (hidle : m.hasIdleWorker = true)
      (hcall : m.crash? b first.task = some wreck) :
      Work b m ((m.vacate rest).crash first.ticket wreck)
  | resume {m : Machine τ σ ω ε} {task : Running σ} {cue : Cue} (htask : task ∈ m.running)
      (hcue : m.Heeds task cue) : Work b m (m.resume b task cue)
  | ring (m : Machine τ σ ω ε) (ticket : Nat) : Work b m (m.ring ticket)
  | enterAll (m : Machine τ σ ω ε) : Work b m m.enterAll
  | callerTurn {m : Machine τ σ ω ε} {caller : Waiting τ}
      (hcaller : caller ∈ m.admitted ++ m.waiting) : Work b m (m.callerTurn caller.ticket)

/-- Any amount of work. -/
abbrev Works (b : Behaviour τ σ ω ε) : Machine τ σ ω ε → Machine τ σ ω ε → Prop :=
  Relation.ReflTransGen (Work b)

/-- One thing that happens in a pool at an instant. -/
inductive Step (b : Behaviour τ σ ω ε) : Machine τ σ ω ε → Machine τ σ ω ε → Prop
  | work {m m' : Machine τ σ ω ε} (hwork : Work b m m') : Step b m m'
  | finishClosing {m : Machine τ σ ω ε} (hdrained : m.isDrained = true) :
      Step b m m.finishClosing
  | giveUp (m : Machine τ σ ω ε) : Step b m m.giveUp

/-- Any number of steps. -/
abbrev Steps (b : Behaviour τ σ ω ε) : Machine τ σ ω ε → Machine τ σ ω ε → Prop :=
  Relation.ReflTransGen (Step b)

/-! ## Tickets -/

/-- The tasks that workers have taken up, in order, each with its context at that moment. -/
def starts (m : Machine τ σ ω ε) : List (Nat × Context) :=
  m.log.filterMap (·.event.start?)

/-- The tickets of the callers who wait for room, or have it and have not used it yet. -/
def callerTickets (m : Machine τ σ ω ε) : List Nat :=
  (m.admitted ++ m.waiting).map (·.ticket)

/-- The tickets of all who stand in front of the workers: the tasks in the queue and the callers. -/
def frontTickets (m : Machine τ σ ω ε) : List Nat :=
  m.queue.map (·.ticket) ++ m.callerTickets

/-- The tickets of all tasks that were started, and of all who stand in front of the workers. -/
def tickets (m : Machine τ σ ω ε) : List Nat :=
  m.starts.map (·.1) ++ m.frontTickets

/-- Everyone has a ticket of their own, and one that has been handed out; and every started task
that is not over has been started once. -/
structure Tidy (m : Machine τ σ ω ε) : Prop where
  nodup : m.tickets.Nodup
  lt_nextTicket : ∀ ticket ∈ m.tickets, ticket < m.nextTicket
  nodup_running : (m.running.map (·.ticket)).Nodup
  running_started : ∀ task ∈ m.running, task.ticket ∈ m.starts.map (·.1)

theorem starts_of_log_eq {m m' : Machine τ σ ω ε} {entries : List (Entry ε)}
    (hlog : m'.log = m.log ++ entries) :
    m'.starts = m.starts ++ entries.filterMap (·.event.start?) := by
  rw [starts, hlog, List.filterMap_append]
  rfl

theorem starts_note (m : Machine τ σ ω ε) {event : Event ε} (hother : event.start? = none) :
    (m.note event).starts = m.starts := by
  rw [starts, note, List.filterMap_append]
  simp [starts, hother]

/-- What a task says in a turn starts no task. -/
theorem starts_turnEvents (m : Machine τ σ ω ε) (ticket deadline : Nat) (rung : Bool)
    (turn : Turn σ ω ε) :
    (m.turnEvents ticket deadline rung turn).filterMap Event.start? = [] := by
  rw [List.filterMap_eq_nil_iff]
  intro event hevent
  rcases List.mem_append.1 hevent with hsaid | hended
  · obtain ⟨word, _, rfl⟩ := List.mem_map.1 hsaid
    rfl
  · split at hended
    · rw [List.mem_singleton.1 hended]
      rfl
    · cases hended

theorem starts_of_events {m m' : Machine τ σ ω ε} {events : List (Event ε)}
    (hlog : m'.log = m.log ++ events.map fun event => ⟨m.now, event⟩) :
    m'.starts = m.starts ++ events.filterMap Event.start? := by
  rw [starts_of_log_eq hlog, List.filterMap_map]
  rfl

/-- The turn of a task leaves everything as it is that concerns tickets, except that the task
itself may stay. -/
theorem tickets_finishTurn (m : Machine τ σ ω ε) (ticket deadline : Nat) (rung : Bool)
    (place : Nat) (turn : Turn σ ω ε) :
    (m.finishTurn ticket deadline rung place turn).starts = m.starts ∧
      (m.finishTurn ticket deadline rung place turn).tickets = m.tickets ∧
      (m.finishTurn ticket deadline rung place turn).nextTicket = m.nextTicket ∧
      ((m.finishTurn ticket deadline rung place turn).running.map (·.ticket)).Sublist
        (m.running.map (·.ticket) ++ [ticket]) := by
  obtain ⟨ownPlace, nextPlace, heq⟩ := m.finishTurn_eq ticket deadline rung place turn
  have hstarts : (m.finishTurn ticket deadline rung place turn).starts = m.starts := by
    rw [starts_of_events (congrArg log heq), starts_turnEvents, List.append_nil]
  refine ⟨hstarts, ?_, ?_, ?_⟩
  · rw [tickets, hstarts, heq]
    rfl
  · rw [heq]
  · rw [heq, List.map_append]
    apply List.Sublist.append_left
    unfold paused
    cases turn.waits with
    | none => exact List.nil_sublist _
    | some wait => exact List.Sublist.refl _

/-- A task that has been started stays tidy through its turns. -/
theorem Tidy.finishTurn {m : Machine τ σ ω ε} (htidy : m.Tidy) {ticket : Nat}
    (hstarted : ticket ∈ m.starts.map (·.1)) (haway : ticket ∉ m.running.map (·.ticket))
    (deadline : Nat) (rung : Bool) (place : Nat) (turn : Turn σ ω ε) :
    (m.finishTurn ticket deadline rung place turn).Tidy := by
  obtain ⟨hstarts, htickets, hnext, hrunning⟩ :=
    m.tickets_finishTurn ticket deadline rung place turn
  have hnodup : (m.running.map (·.ticket) ++ [ticket]).Nodup := by
    rw [List.nodup_append]
    refine ⟨htidy.nodup_running, List.nodup_cons.2 ⟨List.not_mem_nil, List.nodup_nil⟩, ?_⟩
    rintro other hother _ hticket rfl
    rw [List.mem_singleton.1 hticket] at hother
    exact haway hother
  refine ⟨htickets ▸ htidy.nodup, ?_, hnodup.sublist hrunning, ?_⟩
  · rw [htickets, hnext]
    exact htidy.lt_nextTicket
  · intro task htask
    rw [hstarts]
    have hmem := hrunning.subset (List.mem_map_of_mem htask)
    rcases List.mem_append.1 hmem with hold | hnew
    · obtain ⟨other, hother, hsame⟩ := List.mem_map.1 hold
      rw [← hsame]
      exact htidy.running_started other hother
    · rw [List.mem_singleton.1 hnew]
      exact hstarted

theorem admitNext_rest (m : Machine τ σ ω ε) :
    m.admitNext.running = m.running ∧ m.admitNext.nextTicket = m.nextTicket ∧
      m.admitNext.log = m.log := by
  unfold admitNext
  split
  · exact ⟨rfl, rfl, rfl⟩
  · split <;> exact ⟨rfl, rfl, rfl⟩

/-- A task that goes from the queue to a worker takes its ticket along. -/
theorem Tidy.firstTurn {m : Machine τ σ ω ε} (htidy : m.Tidy) {first : Queued τ}
    {rest : List (Queued τ)} (hqueue : m.queue = first :: rest) (rung : Bool)
    (turn : Turn σ ω ε) : ((m.vacate rest).firstTurn first.ticket rung turn).Tidy := by
  let ready : Machine τ σ ω ε := m.vacate rest
  let context := ready.context ready.deadline rung
  let opened : Machine τ σ ω ε :=
    { ready.note (.started first.ticket context) with nextPlace := ready.nextPlace + 1 }
  obtain ⟨hrunning, hnext, hlog⟩ := admitNext_rest { m with queue := rest }
  obtain ⟨hrest, hcallers⟩ := admitNext_queue { m with queue := rest }
  have hstarts : opened.starts = m.starts ++ [(first.ticket, context)] := by
    have hopen : opened.log = m.log ++ [⟨ready.now, .started first.ticket context⟩] :=
      congrArg (· ++ [_]) hlog
    exact starts_of_log_eq hopen
  have htickets : opened.tickets = m.tickets := by
    have hfront : opened.frontTickets = rest.map (·.ticket) ++ m.callerTickets := by
      rw [frontTickets, callerTickets]
      exact congrArg₂ (fun queue callers => queue.map Queued.ticket ++ callers.map Waiting.ticket)
        hrest hcallers
    rw [tickets, hstarts, hfront, List.map_append, List.append_assoc, tickets, frontTickets, hqueue]
    rfl
  have hopened : opened.Tidy := by
    refine ⟨htickets ▸ htidy.nodup, ?_, hrunning ▸ htidy.nodup_running, ?_⟩
    · rw [htickets]
      exact hnext ▸ htidy.lt_nextTicket
    · intro task htask
      rw [hstarts, List.map_append]
      exact List.mem_append_left _ (htidy.running_started task (hrunning ▸ htask))
  refine hopened.finishTurn ?_ ?_ _ _ _ _
  · rw [hstarts, List.map_append]
    exact List.mem_append_right _ List.mem_cons_self
  · intro hruns
    have hagain : first.ticket ∈ m.running.map (·.ticket) := hrunning ▸ hruns
    obtain ⟨task, htask, hsame⟩ := List.mem_map.1 hagain
    have hwaits : first.ticket ∈ m.frontTickets := by
      rw [frontTickets, hqueue]
      exact List.mem_cons_self
    exact (List.nodup_append.1 htidy.nodup).2.2 _ (htidy.running_started task htask) _ hwaits hsame

/-- The turn of a started task. -/
theorem Tidy.resume {b : Behaviour τ σ ω ε} {m : Machine τ σ ω ε} (htidy : m.Tidy)
    {task : Running σ} (htask : task ∈ m.running) (cue : Cue) : (m.resume b task cue).Tidy := by
  have hothers : ({ m with running := m.running.filter (·.ticket ≠ task.ticket) } :
      Machine τ σ ω ε).Tidy := by
    refine ⟨htidy.nodup, htidy.lt_nextTicket, ?_, ?_⟩
    · exact htidy.nodup_running.sublist (List.filter_sublist.map _)
    · intro other hother
      exact htidy.running_started other (List.mem_of_mem_filter hother)
  refine hothers.finishTurn (htidy.running_started task htask) ?_ _ _ _ _
  intro hstays
  obtain ⟨other, hother, hsame⟩ := List.mem_map.1 hstays
  have hne := (List.mem_filter.1 hother).2
  simp [hsame] at hne

/-- What starts no task, and brings nobody in front of the workers who was not there and no task to
a worker, leaves a pool tidy. -/
theorem Tidy.rearrange {m m' : Machine τ σ ω ε} (htidy : m.Tidy) (hstarts : m'.starts = m.starts)
    (hfront : m'.frontTickets.Subperm m.frontTickets) (hnext : m.nextTicket ≤ m'.nextTicket)
    (hrunning : m'.running.map (·.ticket) = m.running.map (·.ticket)) : m'.Tidy := by
  have hall : m'.tickets.Subperm m.tickets := by
    rw [tickets, hstarts, tickets]
    exact (List.subperm_append_left _).2 hfront
  refine ⟨?_, ?_, hrunning ▸ htidy.nodup_running, ?_⟩
  · obtain ⟨kept, hperm, hsub⟩ := hall
    exact hperm.nodup_iff.1 (htidy.nodup.sublist hsub)
  · intro ticket hticket
    exact Nat.lt_of_lt_of_le (htidy.lt_nextTicket ticket (hall.subset hticket)) hnext
  · intro task htask
    have hbefore : task.ticket ∈ m.running.map (·.ticket) := hrunning ▸ List.mem_map_of_mem htask
    obtain ⟨other, hother, hsame⟩ := List.mem_map.1 hbefore
    rw [hstarts, ← hsame]
    exact htidy.running_started other hother

/-- Taking one element out and putting its key back gives no key that was not there. -/
private theorem filter_append_key_subperm {α : Type} (key : α → Nat) {xs : List α} {x : α}
    (hx : x ∈ xs) : ((xs.filter (key · ≠ key x)).map key ++ [key x]).Subperm (xs.map key) := by
  have hsplit := List.filter_append_perm (fun y => decide (key y ≠ key x)) xs
  refine List.Subperm.trans ?_ (hsplit.map key).subperm
  rw [List.map_append]
  apply List.Sublist.subperm
  apply List.Sublist.append_left
  rw [List.singleton_sublist]
  exact List.mem_map_of_mem (List.mem_filter.2 ⟨hx, by simp⟩)

/-- A caller who puts a task in takes the ticket along, and one who is refused goes with it. -/
theorem frontTickets_callerTurn_subperm (m : Machine τ σ ω ε) (ticket : Nat) :
    (m.callerTurn ticket).frontTickets.Subperm m.frontTickets := by
  unfold callerTurn
  cases hfind : m.admitted.find? (·.ticket = ticket) with
  | some found =>
      obtain rfl : found.ticket = ticket := by simpa using List.find?_some hfind
      have hback := filter_append_key_subperm (·.ticket) (List.mem_of_find?_eq_some hfind)
      have hall := (List.Subperm.refl (m.queue.map (·.ticket))).append
        (hback.append (List.Subperm.refl (m.waiting.map (·.ticket))))
      rw [← List.map_append] at hall
      refine (List.Perm.subperm ?_).trans hall
      simp only [frontTickets, callerTickets, enqueue, note, List.map_append, List.map_cons,
        List.map_nil, List.append_assoc, List.perm_append_left_iff]
      exact List.perm_append_comm_assoc ..
  | none =>
      simp only
      split
      · apply List.Sublist.subperm
        simp only [frontTickets, callerTickets, note, List.map_append]
        exact (List.filter_sublist.map _).append_left _ |>.append_left _
      · exact List.Subperm.refl _

theorem callerTurn_rest (m : Machine τ σ ω ε) (ticket : Nat) :
    (m.callerTurn ticket).starts = m.starts ∧
      (m.callerTurn ticket).nextTicket = m.nextTicket ∧
      (m.callerTurn ticket).running = m.running := by
  unfold callerTurn
  split
  · exact ⟨starts_note _ rfl, rfl, rfl⟩
  · split
    · exact ⟨starts_note _ rfl, rfl, rfl⟩
    · exact ⟨rfl, rfl, rfl⟩

/-- The pool without workers starts nothing and keeps nobody in front of them. -/
theorem Tidy.desert {m : Machine τ σ ω ε} (htidy : m.Tidy) : m.desert.Tidy := by
  rw [desert_eq]
  refine htidy.rearrange ?_ (List.nil_sublist _).subperm (Nat.le_refl _) rfl
  refine (starts_of_events rfl).trans ?_
  have hnone : ((m.admitted ++ m.waiting).map fun caller =>
      (.refused caller.ticket .shutdown : Event ε)).filterMap Event.start? = [] := by
    simp [List.filterMap_map, Function.comp_def, Event.start?]
  rw [hnone, List.append_nil]
  rfl

/-- An alarm leaves everybody where they are. -/
theorem Tidy.ring {m : Machine τ σ ω ε} (htidy : m.Tidy) (ticket : Nat) :
    (m.ring ticket).Tidy := by
  refine htidy.rearrange rfl (List.Subperm.refl _) (Nat.le_refl _) ?_
  rw [Machine.ring, List.map_map]
  exact List.map_congr_left fun task _ => by simp only [Function.comp_apply]; split <;> rfl

/-- Work leaves a tidy pool tidy. -/
theorem Tidy.work {b : Behaviour τ σ ω ε} {m m' : Machine τ σ ω ε} (htidy : m.Tidy)
    (hwork : Work b m m') : m'.Tidy := by
  cases hwork with
  | launch hqueue => exact htidy.firstTurn hqueue _ _
  | @crash first rest wreck hqueue =>
      have hwrecked := htidy.firstTurn hqueue false wreck.turn
      exact crash_induction (P := Tidy) { hwrecked with } fun _ => Tidy.desert
  | resume htask => exact htidy.resume htask _
  | ring ticket => exact htidy.ring ticket
  | enterAll =>
      rw [enterAll_eq]
      refine htidy.rearrange ?_ (List.Perm.subperm ?_) (Nat.le_refl _) rfl
      · rw [starts_of_log_eq rfl]
        simp [Event.start?]
      · simp [frontTickets, callerTickets, List.map_map, Function.comp_def]
  | callerTurn =>
      obtain ⟨hstarts, hnext, hrunning⟩ := m.callerTurn_rest _
      exact htidy.rearrange hstarts (m.frontTickets_callerTurn_subperm _) (Nat.le_of_eq hnext.symm)
        (congrArg _ hrunning)

/-- A tidy pool stays tidy. -/
theorem Tidy.step {b : Behaviour τ σ ω ε} {m m' : Machine τ σ ω ε} (htidy : m.Tidy)
    (hstep : Step b m m') : m'.Tidy := by
  cases hstep with
  | work hwork => exact htidy.work hwork
  | finishClosing | giveUp =>
      exact htidy.rearrange (starts_note _ rfl) (List.Subperm.refl _) (Nat.le_refl _) rfl

theorem Tidy.steps {b : Behaviour τ σ ω ε} {m m' : Machine τ σ ω ε} (htidy : m.Tidy)
    (hsteps : Steps b m m') : m'.Tidy := by
  induction hsteps with
  | refl => exact htidy
  | tail _ hstep ih => exact ih.step hstep

/-! ## Changes from outside -/

/-- The pool that takes no more tasks; the callers who waited for room are refused. -/
def shut (m : Machine τ σ ω ε) : Machine τ σ ω ε :=
  refuseAll { m with isOpen := false, admitted := [], waiting := [] } (m.admitted ++ m.waiting)
    .shutdown

/-- What can happen to a pool apart from submissions. -/
inductive Change (b : Behaviour τ σ ω ε) : Machine τ σ ω ε → Machine τ σ ω ε → Prop
  | step {m m' : Machine τ σ ω ε} (hstep : Step b m m') : Change b m m'
  | clock (m : Machine τ σ ω ε) (instant : Nat) : Change b m { m with now := instant }
  | shut (m : Machine τ σ ω ε) : Change b m m.shut
  | await (m : Machine τ σ ω ε) (closing : Closing) (nextPlace : Nat) :
      Change b m { m with closing := some closing, nextPlace }
  | closed (m : Machine τ σ ω ε) : Change b m (m.note (.closed (.ok ())))

/-- Any number of changes. -/
abbrev Changes (b : Behaviour τ σ ω ε) : Machine τ σ ω ε → Machine τ σ ω ε → Prop :=
  Relation.ReflTransGen (Change b)

theorem shut_eq (m : Machine τ σ ω ε) :
    m.shut = noteAll { m with isOpen := false, admitted := [], waiting := [] }
      ((m.admitted ++ m.waiting).map fun caller => .refused caller.ticket .shutdown) :=
  foldl_note (fun caller : Waiting τ => .refused caller.ticket .shutdown) ..

theorem Tidy.change {b : Behaviour τ σ ω ε} {m m' : Machine τ σ ω ε} (htidy : m.Tidy)
    (hchange : Change b m m') : m'.Tidy := by
  cases hchange with
  | step hstep => exact htidy.step hstep
  | clock | await => exact { htidy with }
  | closed => exact htidy.rearrange (starts_note _ rfl) (List.Subperm.refl _) (Nat.le_refl _) rfl
  | shut =>
      rw [shut_eq]
      refine htidy.rearrange ?_ (List.Sublist.subperm ?_) (Nat.le_refl _) rfl
      · have hshut : ({ m with isOpen := false, admitted := [], waiting := [] } :
            Machine τ σ ω ε).starts = m.starts := rfl
        rw [starts_of_log_eq rfl, hshut]
        simp [List.filterMap_map, Function.comp_def, Event.start?]
      · exact (List.nil_sublist _).append_left _

/-! ## Submissions -/

/-- The pool that has handed out its next ticket. -/
def ticketed (m : Machine τ σ ω ε) : Machine τ σ ω ε :=
  { m with nextTicket := m.nextTicket + 1 }

theorem submit_eq (m : Machine τ σ ω ε) (task : τ) :
    m.submit task =
      if !m.takesTasks then (.error .shutdown, m.ticketed.note (.refused m.nextTicket .shutdown))
      else if m.hasRoom then (.ok (), m.ticketed.enqueue m.nextTicket task)
      else (.error .queueFull, m.ticketed.note (.refused m.nextTicket .queueFull)) :=
  rfl

/-- A submission without waiting either puts the task in or refuses it, and says why. -/
theorem submit_cases (m : Machine τ σ ω ε) (task : τ) :
    m.takesTasks = true ∧ m.hasRoom = true ∧
        m.submit task = (.ok (), m.ticketed.enqueue m.nextTicket task) ∨
      ∃ error, (m.takesTasks = false ∧ error = .shutdown ∨
          m.takesTasks = true ∧ m.hasRoom = false ∧ error = .queueFull) ∧
        m.submit task = (.error error, m.ticketed.note (.refused m.nextTicket error)) := by
  rw [submit_eq]
  cases htakes : m.takesTasks with
  | false => exact .inr ⟨.shutdown, .inl ⟨rfl, rfl⟩, rfl⟩
  | true =>
      cases hroom : m.hasRoom with
      | true => exact .inl ⟨rfl, rfl, rfl⟩
      | false => exact .inr ⟨.queueFull, .inr ⟨rfl, rfl, rfl⟩, rfl⟩

theorem Tidy.ticketed {m : Machine τ σ ω ε} (htidy : m.Tidy) : m.ticketed.Tidy :=
  htidy.rearrange rfl (List.Subperm.refl _) (Nat.le_succ _) rfl

theorem Tidy.note {m : Machine τ σ ω ε} (htidy : m.Tidy) {event : Event ε}
    (hother : event.start? = none) : (m.note event).Tidy :=
  htidy.rearrange (starts_note m hother) (List.Subperm.refl _) (Nat.le_refl _) rfl

/-- A task that goes into the queue under a fresh ticket leaves the pool tidy. -/
theorem Tidy.enqueue_ticketed {m : Machine τ σ ω ε} (htidy : m.Tidy) (task : τ) :
    (m.ticketed.enqueue m.nextTicket task).Tidy := by
  have hstarts : (m.ticketed.enqueue m.nextTicket task).starts = m.starts := starts_note _ rfl
  have hperm : (m.ticketed.enqueue m.nextTicket task).tickets.Perm
      (m.nextTicket :: m.tickets) := by
    have hfront : (m.ticketed.enqueue m.nextTicket task).frontTickets =
        m.queue.map (·.ticket) ++ m.nextTicket :: m.callerTickets := by
      rw [frontTickets, enqueue, Machine.note, List.map_append, List.append_assoc]
      rfl
    rw [tickets, hstarts, hfront, ← List.append_assoc, tickets, frontTickets, ← List.append_assoc]
    exact List.perm_middle
  have hfresh : m.nextTicket ∉ m.tickets := by
    intro hmem
    exact Nat.lt_irrefl _ (htidy.lt_nextTicket _ hmem)
  refine ⟨hperm.nodup_iff.2 (List.nodup_cons.2 ⟨hfresh, htidy.nodup⟩), ?_, htidy.nodup_running,
    hstarts ▸ htidy.running_started⟩
  intro ticket hticket
  rcases List.mem_cons.1 (hperm.subset hticket) with rfl | hmem
  · exact Nat.lt_succ_self _
  · exact Nat.lt_succ_of_lt (htidy.lt_nextTicket ticket hmem)

theorem Tidy.submit {m : Machine τ σ ω ε} (htidy : m.Tidy) (task : τ) :
    (m.submit task).2.Tidy := by
  obtain ⟨-, -, hsubmit⟩ | ⟨error, -, hsubmit⟩ := m.submit_cases task
  · rw [hsubmit]
    exact htidy.enqueue_ticketed task
  · rw [hsubmit]
    exact htidy.ticketed.note rfl

end Machine

end Upkeep.Pool
