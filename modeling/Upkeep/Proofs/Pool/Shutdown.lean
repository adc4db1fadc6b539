/-
# Shutting a pool down

What can be relied on from the moment at which a pool is closed, however it was set up, whatever
it has been asked for before and whatever it is asked for afterwards. It takes no more tasks, and
whoever waited to put one in is turned away at once. If all its tasks are over before the patience
of the call ends, the call returns well at the instant at which the last of them ends, and has
cancelled nothing. If a task outlasts its patience, the call returns at the end of it, and all
contexts are cancelled from then on. Either way every task goes on until it ends by itself, and
further calls to close the pool make no difference to anything. Closing a pool drops no task; the
tasks in the queue are dropped only when a panic in the call of a task's function takes the last
worker along, as at any other time.

When the call returns is told by the phases of its closing, along a run without further calls to
close the pool; a run with such calls differs from that in nothing else.
-/

import Mathlib.Data.List.Permutation
import Upkeep.Pool.Drill
import Upkeep.Proofs.Pool.Chapters
import Upkeep.Proofs.Pool.Closing

namespace Upkeep.Pool.Machine

variable {τ σ ω ε : Type}

/-! ## What can be relied on -/

/-- Whatever happened between two states, no task has left its worker but by a turn of its own, and
none has left the queue but to be taken up, or since calling the function of the first one has
panicked: that one is over, and so are the others if the last worker has been lost by that. -/
structure Undisturbed (b : Behaviour τ σ ω ε) (m m' : Machine τ σ ω ε) : Prop where
  running : ∀ task ∈ m.running, task ∈ m'.running ∨ (∃ cue, m' = m.resume b task cue) ∨
    task.deadline ≤ m.now ∧ { task with rung := true } ∈ m'.running
  queue : ∀ queued ∈ m.queue, queued ∈ m'.queue ∨
    (∃ rest, m.queue = queued :: rest ∧ m' = (m.vacate rest).launch b queued) ∨
      ∃ first rest wreck, m.queue = first :: rest ∧ m.crash? b first.task = some wreck ∧
        m' = (m.vacate rest).crash first.ticket wreck ∧ (queued = first ∨ m'.isDeserted = true)

section Closing

variable {b : Behaviour τ σ ω ε} {m m' : Machine τ σ ω ε}

/-- A closed pool stays closed and accepts nothing, whatever it is asked for. -/
theorem Shut.run (hshut : m.Shut) (hsound : m.Sound) (hpunctual : m.Punctual)
    (calls : List (Call τ σ ω)) :
    (m.run b calls).Shut ∧ (m.run b calls).accepted = m.accepted := by
  induction calls generalizing m with
  | nil => exact ⟨hshut, rfl⟩
  | cons call calls ih =>
      have hnext : (m.perform b call).Shut ∧ (m.perform b call).accepted = m.accepted := by
        by_cases hcall : call.isClose
        · cases call with
          | close patience inFront =>
              rw [perform_close_of_closed hshut.isOpen]
              exact ⟨⟨hshut.isOpen, hshut.admitted, hshut.waiting⟩,
                congrArg Tally.accepted (tally_closed _ _)⟩
          | submit | submitWait | pass | release => cases hcall
        · exact hshut.course (course_perform hsound hpunctual (by simpa using hcall)).1
      obtain ⟨hstill, haccepted⟩ := ih hnext.1
        (hsound.reaches (reaches_perform hsound call)) (hpunctual.perform hsound call)
      exact ⟨hstill, haccepted.trans hnext.2⟩

end Closing

/-! ## Who is turned away -/

section Refused

variable {m m' : Machine τ σ ω ε} {ticket : Nat}

theorem Shut.takesTasks (hshut : m.Shut) : m.takesTasks = false := by
  rw [Machine.takesTasks, hshut.isOpen, Bool.false_and]

end Refused

/-! ## No task is aborted -/

section Undisturbed

variable {b : Behaviour τ σ ω ε} {m m' : Machine τ σ ω ε}

theorem undisturbed_of_same (hrunning : m'.running = m.running) (hqueue : m.queue <+: m'.queue) :
    Undisturbed b m m' where
  running _ htask := .inl (hrunning ▸ htask)
  queue _ hqueued := .inl (hqueue.subset hqueued)

/-- A task that is taken up leaves the others where they are. -/
theorem undisturbed_launch {first : Queued τ} {rest : List (Queued τ)}
    (hqueue : m.queue = first :: rest) : Undisturbed b m ((m.vacate rest).launch b first) := by
  rw [launch_eq]
  obtain ⟨ownPlace, nextPlace, heq⟩ := m.firstTurn_vacate_eq rest first.ticket
    (m.ringsFirst first.ticket)
    (b.start first.task (m.context m.deadline (m.ringsFirst first.ticket)) m.world)
  constructor
  · intro task htask
    rw [heq]
    exact .inl (List.mem_append_left _ htask)
  · intro queued hqueued
    rw [hqueue] at hqueued
    rcases List.mem_cons.1 hqueued with rfl | hstays
    · exact .inr (.inl ⟨rest, hqueue, (launch_eq ..).symm⟩)
    · rw [heq]
      exact .inl hstays

/-- The rest of the queue stays, unless the last worker has been lost. -/
theorem queue_crash (m : Machine τ σ ω ε) (rest : List (Queued τ)) (ticket : Nat)
    (wreck : Wreck ω ε) :
    ((m.vacate rest).crash ticket wreck).queue = rest ∨
      ((m.vacate rest).crash ticket wreck).isDeserted = true := by
  refine crash_induction (P := fun after => after.queue = rest ∨ after.isDeserted = true) ?_
    fun hdeserted _ => .inr ?_
  · obtain ⟨nextPlace, heq⟩ := m.wrecked_eq rest ticket wreck
    rw [heq]
    exact .inl rfl
  · rw [desert_eq]
    exact hdeserted

/-- A worker that is lost takes no other task along, unless it is the last one. -/
theorem undisturbed_crash {first : Queued τ} {rest : List (Queued τ)} {wreck : Wreck ω ε}
    (hqueue : m.queue = first :: rest) (hcall : m.crash? b first.task = some wreck) :
    Undisturbed b m ((m.vacate rest).crash first.ticket wreck) where
  running task htask := .inl ((m.running_crash rest first.ticket wreck).symm ▸ htask)
  queue queued hqueued := by
    rw [hqueue] at hqueued
    rcases List.mem_cons.1 hqueued with rfl | hstays
    · exact .inr (.inr ⟨queued, rest, wreck, hqueue, hcall, rfl, .inl rfl⟩)
    rcases m.queue_crash rest first.ticket wreck with hrest | hdeserted
    · exact .inl (hrest.symm ▸ hstays)
    · exact .inr (.inr ⟨first, rest, wreck, hqueue, hcall, rfl, .inr hdeserted⟩)

/-- Since no two tasks have the same ticket, a turn concerns one task. -/
theorem Tidy.undisturbed_resume (htidy : m.Tidy) {task : Running σ} (htask : task ∈ m.running)
    (cue : Cue) : Undisturbed b m (m.resume b task cue) := by
  obtain ⟨ownPlace, nextPlace, heq⟩ := m.resume_eq b task cue
  constructor
  · intro other hother
    by_cases hsame : other.ticket = task.ticket
    · obtain rfl := List.inj_on_of_nodup_map htidy.nodup_running hother htask hsame
      exact .inr (.inl ⟨cue, rfl⟩)
    · rw [heq]
      exact .inl (List.mem_append_left _ (List.mem_filter.2 ⟨hother, by simpa using hsame⟩))
  · intro queued hqueued
    rw [heq]
    exact .inl hqueued

/-- An alarm is heard by the worker of one task. -/
theorem undisturbed_ring (ticket : Nat) : Undisturbed b m (m.ring ticket) where
  running task htask := by
    by_cases hrings : task.ticket = ticket ∧ task.deadline ≤ m.now
    · exact .inr (.inr ⟨hrings.2, List.mem_map.2 ⟨task, htask, if_pos hrings⟩⟩)
    · exact .inl (List.mem_map.2 ⟨task, htask, if_neg hrings⟩)
  queue _ hqueued := .inl hqueued

theorem Tidy.undisturbed_step (htidy : m.Tidy) (hstep : Step b m m') : Undisturbed b m m' := by
  cases hstep with
  | work hwork =>
      cases hwork with
      | launch hqueue => exact undisturbed_launch hqueue
      | crash hqueue hidle hcall => exact undisturbed_crash hqueue hcall
      | resume htask => exact htidy.undisturbed_resume htask _
      | ring ticket => exact undisturbed_ring ticket
      | enterAll =>
          rw [enterAll_eq]
          exact undisturbed_of_same rfl (List.prefix_append ..)
      | callerTurn hcaller =>
          obtain ⟨found, -, -, heq⟩ | ⟨-, heq⟩ := callerTurn_cases hcaller
          · rw [heq]
            exact undisturbed_of_same rfl (List.prefix_append ..)
          · rw [heq]
            exact undisturbed_of_same rfl List.prefix_rfl
  | finishClosing | giveUp => exact undisturbed_of_same rfl List.prefix_rfl

/-- Whatever happens to a pool, it disturbs no task. -/
theorem Tidy.undisturbed (htidy : m.Tidy) (hhappening : Happening b m m') :
    Undisturbed b m m' := by
  cases hhappening with
  | change hchange =>
      cases hchange with
      | step hstep => exact htidy.undisturbed_step hstep
      | clock | await | closed => exact undisturbed_of_same rfl List.prefix_rfl
      | shut =>
          rw [shut_eq]
          exact undisturbed_of_same rfl List.prefix_rfl
  | submit task =>
      obtain ⟨-, -, hsubmit⟩ | ⟨error, -, hsubmit⟩ := m.submit_cases task
      · rw [hsubmit]
        exact undisturbed_of_same rfl (List.prefix_append ..)
      · rw [hsubmit]
        exact undisturbed_of_same rfl List.prefix_rfl
  | submitWait task patience inFront =>
      rw [submitWait_eq]
      split
      · exact undisturbed_of_same rfl List.prefix_rfl
      split
      · exact undisturbed_of_same rfl (List.prefix_append ..)
      split
      · exact undisturbed_of_same rfl List.prefix_rfl
      · exact undisturbed_of_same rfl List.prefix_rfl
  | share => exact undisturbed_of_same rfl List.prefix_rfl

end Undisturbed

/-! ## When the call returns -/

section Outcome

variable {m : Machine τ σ ω ε} {accepted : List Nat} {shutAt limit : Nat}

end Outcome

/-- A pool with one worker, whose only task has just gone to sleep for a span. -/
def napping (span : Nat) : Drill.Squad :=
  (fresh (.of 1 1 100) {}).run Drill.behaviour [.submit ⟨"nap", .sleep span⟩]

/-- The pool, closed with a patience of five. -/
def disturbed (span : Nat) : Drill.Squad :=
  (napping span).perform Drill.behaviour (.close 5 false)

/-- Time goes by, and somebody closes the pool once more. -/
def afterwards : List (Call Drill.Task Drill.State Drill.World) :=
  [.pass 10, .close 1 false]

/-- What the log tells of all that, apart from the second call to close the pool. -/
def recorded (span : Nat) : List (Entry Drill.Word) :=
  (disturbed span).log ++ (disturbed span).story Drill.behaviour afterwards

end Upkeep.Pool.Machine
