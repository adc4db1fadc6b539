/-
# The course of a pool

Apart from the calls to close it, what happens in a pool is work, the return of a call that has
closed it, submissions, changes of what the tasks share, and that time passes. `Move` says under
which conditions each of these happens. Time passes only in a pool that is punctual, and never
past the end of the patience of whoever waits for its tasks, nor past the deadline of a task that
runs, before its worker has noticed it. So workers notice deadlines when they come, `Timely`: not
before, and not later; at the very instant of the deadline they may or may not have noticed it yet.
-/

import Upkeep.Proofs.Pool.Punctual
import Upkeep.Proofs.Pool.Run

namespace Upkeep.Pool

variable {τ σ ω ε : Type}

/-- Whether a call closes the pool. -/
def Call.isClose : Call τ σ ω → Bool
  | .close _ _ => true
  | .submit _ | .submitWait _ _ _ | .pass _ | .release _ _ => false

/-- Whether something is so because a deadline has come: not before that, and always after that. -/
structure RungBy (rung : Bool) (deadline now : Nat) : Prop where
  due : rung = true → deadline ≤ now
  past : deadline < now → rung = true

namespace Machine

/-! ## Deadlines are noticed in time -/

/-- Workers notice the deadlines of their tasks when they come. -/
def Timely (m : Machine τ σ ω ε) : Prop :=
  ∀ task ∈ m.running, RungBy task.rung task.deadline m.now

section Timely

variable {b : Behaviour τ σ ω ε} {m m' : Machine τ σ ω ε}

/-- So does the worker of a task that starts, be it before or after it looks at the task. -/
theorem rungBy_deadline (m : Machine τ σ ω ε) {rung : Bool}
    (hdue : rung = true → m.deadline ≤ m.now) : RungBy rung m.deadline m.now :=
  ⟨hdue, fun hpast => absurd hpast (Nat.not_lt_of_le (m.circumstances.le_deadlineAfter ..))⟩

theorem rungBy_ringsFirst (m : Machine τ σ ω ε) (ticket : Nat) :
    RungBy (m.ringsFirst ticket) m.deadline m.now :=
  m.rungBy_deadline fun hrings => of_decide_eq_true (Bool.and_eq_true_iff.1 hrings).2

/-- A task that has just started may still be told to stop. -/
theorem rungBy_false (m : Machine τ σ ω ε) : RungBy false m.deadline m.now :=
  m.rungBy_deadline fun hrings => absurd hrings Bool.false_ne_true

/-- It does not matter for this what else happens at the same instant. -/
theorem Timely.of_running (htimely : m.Timely) (hnow : m'.now = m.now)
    (hrunning : ∀ task ∈ m'.running, task ∈ m.running ∨ RungBy task.rung task.deadline m.now) :
    m'.Timely := by
  intro task htask
  rw [hnow]
  exact (hrunning task htask).elim (htimely task) id

theorem Timely.work (htimely : m.Timely) (hwork : Work b m m') : m'.Timely := by
  refine htimely.of_running hwork.same.now fun task htask => ?_
  cases hwork with
  | @launch first rest =>
      obtain ⟨ownPlace, nextPlace, heq⟩ := m.firstTurn_vacate_eq rest first.ticket _ _
      rw [launch_eq, heq, List.mem_append] at htask
      refine htask.imp_right fun hnew => ?_
      obtain ⟨-, hdeadline, hrung, -⟩ := mem_paused hnew
      rw [hdeadline, hrung]
      exact m.rungBy_ringsFirst first.ticket
  | @crash first rest wreck => rw [running_crash] at htask; exact .inl htask
  | @resume task cue hruns =>
      obtain ⟨ownPlace, nextPlace, heq⟩ := m.resume_eq b task cue
      rw [heq, List.mem_append] at htask
      refine htask.imp List.mem_of_mem_filter fun hagain => ?_
      obtain ⟨-, hdeadline, hrung, -⟩ := mem_paused hagain
      rw [hdeadline, hrung]
      exact htimely task hruns
  | ring ticket =>
      obtain ⟨before, hruns, rfl⟩ := List.mem_map.1 htask
      split
      next hcome => exact .inr ⟨fun _ => hcome.2, fun _ => rfl⟩
      · exact .inl hruns
  | enterAll =>
      rw [enterAll_eq] at htask
      exact .inl htask
  | callerTurn =>
      rw [(m.callerTurn_rest _).2.2] at htask
      exact .inl htask

theorem Timely.step (htimely : m.Timely) (hstep : Step b m m') : m'.Timely := by
  cases hstep with
  | work hwork => exact htimely.work hwork
  | finishClosing | giveUp => exact htimely

theorem Timely.submit (htimely : m.Timely) (task : τ) : (m.submit task).2.Timely := by
  obtain ⟨-, -, hsubmit⟩ | ⟨error, -, hsubmit⟩ := m.submit_cases task
  · rw [hsubmit]
    exact htimely
  · rw [hsubmit]
    exact htimely

theorem Timely.submitWait (htimely : m.Timely) (task : τ) (patience : Nat) (inFront : Bool) :
    (m.submitWait task patience inFront).2.Timely := by
  rw [submitWait_eq]
  split
  · exact htimely
  split
  · exact htimely
  split <;> exact htimely

/-- Time may pass, but not by a deadline that has not been noticed. -/
theorem Timely.clock (htimely : m.Timely) {instant : Nat} (hlater : m.now ≤ instant)
    (hstops : m.now < instant → ∀ task ∈ m.running, task.rung = false → instant ≤ task.deadline) :
    ({ m with now := instant } : Machine τ σ ω ε).Timely := by
  intro task htask
  refine ⟨fun hrung => ((htimely task htask).due hrung).trans hlater, fun hpast => ?_⟩
  by_contra hsilent
  rw [Bool.not_eq_true] at hsilent
  rcases Nat.eq_or_lt_of_le hlater with rfl | hahead
  · rw [(htimely task htask).past hpast] at hsilent
    cases hsilent
  · exact absurd hpast (Nat.not_lt_of_le (hstops hahead task htask hsilent))

end Timely

/-! ## Moves -/

/-- One thing that happens in a pool, as long as nobody calls to close it. -/
inductive Move (b : Behaviour τ σ ω ε) : Machine τ σ ω ε → Machine τ σ ω ε → Prop
  | due {m m' : Machine τ σ ω ε} (hdue : Due b m m') : Move b m m'
  | submit (m : Machine τ σ ω ε) (task : τ) : Move b m (m.submit task).2
  | submitWait (m : Machine τ σ ω ε) (task : τ) (patience : Nat) (inFront : Bool) :
      Move b m (m.submitWait task patience inFront).2
  | share (m : Machine τ σ ω ε) (world : ω) : Move b m { m with world }
  | clock {m : Machine τ σ ω ε} {instant : Nat} (hpunctual : m.Punctual)
      (hlater : m.now < instant)
      (hlimit : ∀ closing, m.closing = some closing → instant ≤ closing.limit)
      (hdeadline : ∀ task ∈ m.running, task.rung = false → instant ≤ task.deadline) :
      Move b m { m with now := instant }

/-- Any number of moves. -/
abbrev Course (b : Behaviour τ σ ω ε) : Machine τ σ ω ε → Machine τ σ ω ε → Prop :=
  Relation.ReflTransGen (Move b)

section Moves

variable {b : Behaviour τ σ ω ε} {m m' : Machine τ σ ω ε}

theorem Move.happening (hmove : Move b m m') : Happening b m m' := by
  cases hmove with
  | due hdue => exact .change (.step hdue.step)
  | submit task => exact .submit m task
  | submitWait task patience inFront => exact .submitWait m task patience inFront
  | share world => exact .share m world
  | clock => exact .change (.clock m _)

theorem Course.reaches (hcourse : Course b m m') : Reaches b m m' :=
  hcourse.lift id fun _ _ => Move.happening

theorem Move.timely (hmove : Move b m m') (htimely : m.Timely) : m'.Timely := by
  cases hmove with
  | due hdue => exact htimely.step hdue.step
  | submit task => exact htimely.submit task
  | submitWait task patience inFront => exact htimely.submitWait task patience inFront
  | share world => exact htimely
  | clock hpunctual hlater hlimit hdeadline => exact htimely.clock hlater.le fun _ => hdeadline

theorem Proceeds.course (hproceeds : Proceeds b m m') : Course b m m' :=
  hproceeds.lift id fun _ _ => .due

/-- On its way to an instant a pool stops no later than where anything is due. -/
theorem nextStop_le_of_due {instant : Nat} (hdue : instant ∈ m.dueInstants) (target : Nat) :
    (line b).nextStop target m ≤ instant := by
  have hfirst : ∀ first, m.dueInstants.min? = some first → m.now < first ∧ first ≤ instant := by
    intro first hmin
    obtain ⟨hmem, hle⟩ := List.min?_eq_some_iff.1 hmin
    exact ⟨of_decide_eq_true (List.mem_filter.1 hmem).2, hle _ hdue⟩
  unfold Timeline.nextStop
  split
  next first hnext =>
    obtain ⟨hlater, hle⟩ := hfirst first hnext
    split
    · exact hle
    next hcond =>
      have hbeyond : ¬ first < target := fun hbefore => hcond ⟨hlater, hbefore⟩
      exact Nat.le_trans (Nat.le_of_not_lt hbeyond) hle
  next hnone =>
    have hempty : m.dueInstants = [] := List.min?_eq_none_iff.1 hnone
    rw [hempty] at hdue
    cases hdue

/-- So it stops no later than where the patience of the call that closed it ends. -/
theorem nextStop_le_limit {closing : Closing} (hclosing : m.closing = some closing)
    (hahead : m.now < closing.limit) (target : Nat) :
    (line b).nextStop target m ≤ closing.limit := by
  apply nextStop_le_of_due
  simp [dueInstants, hclosing, hahead]

/-- And no later than where the deadline of a task is, as long as its worker has not noticed it. -/
theorem nextStop_le_deadline (hpunctual : m.Punctual) {task : Running σ} (htask : task ∈ m.running)
    (hsilent : task.rung = false) (target : Nat) :
    (line b).nextStop target m ≤ task.deadline := by
  have hahead : m.now < task.deadline := Nat.lt_of_not_le fun hpast => by
    simp [(hpunctual.attended task htask).rung hpast] at hsilent
  apply nextStop_le_of_due
  simp only [dueInstants, List.mem_filter, List.mem_append, List.mem_map]
  exact ⟨.inl (.inl (.inr ⟨task, ⟨htask, by simp [hsilent]⟩, rfl⟩)), decide_eq_true hahead⟩

/-- Time passes move by move. -/
theorem course_pass (hsound : m.Sound) (hpunctual : m.Punctual) (span : Nat) :
    Course b m (m.pass b span) ∧ (m.pass b span).Punctual := by
  apply (line b).runTo_induction_nextStop (P := fun between => Course b m between ∧
    between.Punctual) ?_ ⟨.refl, hpunctual⟩
  rintro between ⟨hcourse, hbetween⟩ hahead
  have hmove : Move b between { between with now := (line b).nextStop (m.now + span) between } :=
    .clock hbetween ((line b).lt_nextStop_le hahead).1
      (fun closing hclosing => nextStop_le_limit hclosing (hbetween.ahead closing hclosing) _)
      fun task htask hsilent => nextStop_le_deadline hbetween htask hsilent _
  have htidy := ((hsound.reaches hcourse.reaches).happening hmove.happening).tidy
  exact ⟨(hcourse.tail hmove).trans (proceeds_settle b htidy).course, htidy.punctual_settle b⟩

/-- Whatever a pool is asked for, closing apart, happens move by move. -/
theorem course_perform (hsound : m.Sound) (hpunctual : m.Punctual) {call : Call τ σ ω}
    (hcall : call.isClose = false) :
    Course b m (m.perform b call) ∧ (m.perform b call).Punctual := by
  have hsettle : ∀ {asked turned : Machine τ σ ω ε}, Move b m asked → Works b asked turned →
      Course b m (turned.settle b) ∧ (turned.settle b).Punctual := by
    intro asked turned hmove hworks
    have hasked := (hsound.happening hmove.happening).tidy
    have hturned := hasked.steps hworks.proceeds.steps
    exact ⟨.head hmove (hworks.proceeds.course.trans (proceeds_settle b hturned).course),
      hturned.punctual_settle b⟩
  cases call with
  | submit task => exact hsettle (.submit m task) .refl
  | submitWait task patience inFront => exact hsettle (.submitWait m task patience inFront) .refl
  | close => cases hcall
  | pass span => exact course_pass hsound hpunctual span
  | release free chosen =>
      have hmove : Move b m { m with world := free m.world } := .share m _
      have hasked := (hsound.happening hmove.happening).tidy
      exact hsettle hmove (works_released b hasked chosen)

/-- After any call the pool is punctual, if it has been before. -/
theorem Punctual.perform (hpunctual : m.Punctual) (hsound : m.Sound) (call : Call τ σ ω) :
    (m.perform b call).Punctual := by
  by_cases hcall : call.isClose
  · cases call with
    | close patience inFront =>
        show (m.close b patience inFront).Punctual
        rw [close_eq]
        split
        · have hshut : m.shut.Tidy := hsound.tidy.change (b := b) (.shut m)
          apply Tidy.punctual_settle
          split
          · exact hshut.change (b := b) (.step (.giveUp m.shut))
          · exact hshut.change (b := b) (.await ..)
        · exact ⟨hpunctual.ahead, hpunctual.undrained, fun task htask =>
            ⟨(hpunctual.attended task htask).uncued, (hpunctual.attended task htask).rung⟩⟩
    | submit | submitWait | pass | release => cases hcall
  · exact (course_perform hsound hpunctual (by simpa using hcall)).2

end Moves

end Machine

end Upkeep.Pool
