/-
# When contexts are cancelled

A task is told to stop for two reasons: its time is up, which is counted from when a worker has
taken it up, or the call that closed the pool has run out of patience. There is no third one. The
contexts of all tasks are made by one pool and hang together, yet nothing that a task does, and
nothing that happens to it, shows in the context of another.

The time of a task is up when the pool's task timeout has passed since its start; or after the
longest timeout, where the clock cannot show that instant. It is the task's worker that cancels the
context then, when it looks at the clock. In the middle of that instant a task may be looked at
before the clock is; at its end every context is cancelled whose time is up, and never before.

Almost everything that happens in a pool is `Calm`: it takes no time, gives nothing up, and shows
contexts as they are; the only deadline that comes in is that of a task that starts. What is not
calm is that time passes and that the call gives up.
-/

import Upkeep.Pool.Drill
import Upkeep.Proofs.Pool.Closing
import Upkeep.Proofs.Pool.Rest
import Upkeep.Proofs.Pool.Turn

namespace Upkeep.Pool

variable {τ σ ω ε : Type}

/-! ## What the log tells of contexts -/

/-- The task that has seen its context at an event, since it started or spoke, and that context. -/
def Event.shown? : Event ε → Option (Nat × Context)
  | .started ticket context => some (ticket, context)
  | .said ticket context _ => some (ticket, context)
  | .accepted _ | .refused _ _ | .ended _ | .closed _ => none

/-- The call that closed the pool has run out of patience. -/
def RanOut (entries : List (Entry ε)) : Prop :=
  ∃ instant, ⟨instant, .closed (.error .shutdownTimeout)⟩ ∈ entries

/-- A context is cancelled for the two reasons: the time of its task is up, or patience has run out.
At the very instant at which the time is up it may or may not be cancelled yet. -/
structure CancelledFor (cancelled : Bool) (deadline now : Nat) (ranOut : Prop) : Prop where
  reason : cancelled = true → deadline ≤ now ∨ ranOut
  sure : deadline < now ∨ ranOut → cancelled = true

/-- A pool that gives up, and workers that look at the clock in time, cancel for these reasons. -/
theorem RungBy.cancelledFor {rung gaveUp : Bool} {deadline now : Nat} {ranOut : Prop}
    (hrung : RungBy rung deadline now) (hgaveUp : gaveUp = true ↔ ranOut) :
    CancelledFor (gaveUp || rung) deadline now ranOut where
  reason hcancelled := by
    rw [Bool.or_eq_true, or_comm] at hcancelled
    exact hcancelled.imp hrung.due hgaveUp.1
  sure hdue := by
    rw [Bool.or_eq_true, or_comm]
    exact hdue.imp hrung.past hgaveUp.2

theorem ranOut_append {entries more : List (Entry ε)}
    (hmore : ∀ entry ∈ more, entry.event ≠ .closed (.error .shutdownTimeout)) :
    RanOut (entries ++ more) ↔ RanOut entries := by
  constructor
  · rintro ⟨instant, hentry⟩
    rcases List.mem_append.1 hentry with hold | hnew
    · exact ⟨instant, hold⟩
    · exact absurd rfl (hmore _ hnew)
  · rintro ⟨instant, hentry⟩
    exact ⟨instant, List.mem_append_left _ hentry⟩

namespace Machine

/-- A worker has taken up the task with a ticket at an instant. -/
def StartedAt (m : Machine τ σ ω ε) (ticket instant : Nat) : Prop :=
  ∃ context, ⟨instant, .started ticket context⟩ ∈ m.log

/-- A deadline of the task with a ticket stands somewhere: with the task, or in what was shown. -/
def Tells (m : Machine τ σ ω ε) (ticket deadline : Nat) : Prop :=
  (∃ task ∈ m.running, task.ticket = ticket ∧ task.deadline = deadline) ∨
    ∃ entry ∈ m.log, ∃ context, entry.event.shown? = some (ticket, context) ∧
      context.deadline = deadline

/-- The task with a ticket has started, and this is when its time is up. -/
def Allots (m : Machine τ σ ω ε) (ticket deadline : Nat) : Prop :=
  ∃ started, m.StartedAt ticket started ∧
    deadline = m.circumstances.deadlineAfter started m.settings.taskTimeout

/-- An entry of this moment that shows a context as it is, and not that patience has run out. -/
structure Shows (m : Machine τ σ ω ε) (entry : Entry ε) : Prop where
  instant : entry.instant = m.now
  patient : entry.event ≠ .closed (.error .shutdownTimeout)
  context : ∀ ticket context, entry.event.shown? = some (ticket, context) →
    ∃ rung, context = m.context context.deadline rung ∧
      (m.Timely → RungBy rung context.deadline m.now)

/-- Where a deadline comes from when something happens: it has been there before, or it is given to
a task that starts. -/
def Derives (m m' : Machine τ σ ω ε) (ticket deadline : Nat) : Prop :=
  m.Tells ticket deadline ∨ m'.StartedAt ticket m.now ∧ deadline = m.deadline

/-- No time passes, and nothing is given up. -/
structure Stands (m m' : Machine τ σ ω ε) : Prop where
  settings : m'.settings = m.settings
  circumstances : m'.circumstances = m.circumstances
  now : m'.now = m.now
  gaveUp : m'.gaveUp = m.gaveUp

/-- Something happens that takes no time and gives nothing up. Contexts are shown as they are, and
no running task gets another deadline. -/
structure Calm (m m' : Machine τ σ ω ε) : Prop extends Stands m m' where
  log : ∃ entries, m'.log = m.log ++ entries ∧ ∀ entry ∈ entries, m.Shows entry
  derives : ∀ ticket deadline, m'.Tells ticket deadline → m.Derives m' ticket deadline

section Calm

variable {b : Behaviour τ σ ω ε} {m m' : Machine τ σ ω ε}

/-- Events that show contexts as they are, and deadlines that are known, are calm. -/
theorem calm_of_events (events : List (Event ε)) (hstands : m.Stands m')
    (hlog : m'.log = m.log ++ events.map fun event => ⟨m.now, event⟩)
    (hevents : ∀ event ∈ events, m.Shows ⟨m.now, event⟩ ∧
      ∀ ticket context, event.shown? = some (ticket, context) →
        m.Derives m' ticket context.deadline)
    (hrunning : ∀ task ∈ m'.running, task ∈ m.running ∨ m.Derives m' task.ticket task.deadline) :
    m.Calm m' := by
  refine ⟨hstands, ⟨_, hlog, fun entry hentry => ?_⟩, ?_⟩
  · obtain ⟨event, hevent, rfl⟩ := List.mem_map.1 hentry
    exact (hevents event hevent).1
  · rintro ticket deadline (⟨task, htask, rfl, rfl⟩ | ⟨entry, hentry, context, hshown, rfl⟩)
    · rcases hrunning task htask with hold | hnew
      · exact .inl (.inl ⟨task, hold, rfl, rfl⟩)
      · exact hnew
    · rw [hlog, List.mem_append] at hentry
      rcases hentry with hold | hnew
      · exact .inl (.inr ⟨entry, hold, context, hshown, rfl⟩)
      · obtain ⟨event, hevent, rfl⟩ := List.mem_map.1 hnew
        exact (hevents event hevent).2 ticket context hshown

/-- An event that shows no context, and no end of patience, is calm. -/
theorem calm_of_quiet (events : List (Event ε)) (hstands : m.Stands m')
    (hlog : m'.log = m.log ++ events.map fun event => ⟨m.now, event⟩)
    (hquiet : ∀ event ∈ events, event.shown? = none ∧ event ≠ .closed (.error .shutdownTimeout))
    (hrunning : m'.running = m.running) : m.Calm m' := by
  apply calm_of_events events hstands hlog
  · intro event hevent
    obtain ⟨hnone, hpatient⟩ := hquiet event hevent
    constructor
    · exact ⟨rfl, hpatient, fun _ _ hshown => by simp [hnone] at hshown⟩
    · exact fun _ _ hshown => by simp [hnone] at hshown
  · intro task htask
    exact .inl (hrunning ▸ htask)

/-- A turn shows a task its own context, and that of no other. -/
theorem calm_of_turn {ticket deadline place : Nat} {rung : Bool} {turn : Turn σ ω ε}
    (opening : List (Event ε)) {others : List (Running σ)} (hstands : m.Stands m')
    (hlog : m'.log = m.log ++ (opening ++ m.turnEvents ticket deadline rung turn).map
      fun event => ⟨m.now, event⟩)
    (hopening : ∀ event ∈ opening, event = .started ticket (m.context deadline rung))
    (hrunning : m'.running = others ++ paused ticket deadline rung place turn)
    (hothers : others ⊆ m.running) (hderives : m.Derives m' ticket deadline)
    (hrung : m.Timely → RungBy rung deadline m.now) : m.Calm m' := by
  have hown : ∀ event : Event ε, event.shown? = some (ticket, m.context deadline rung) →
      m.Shows ⟨m.now, event⟩ ∧ ∀ other context, event.shown? = some (other, context) →
        m.Derives m' other context.deadline := by
    intro event hshown
    refine ⟨⟨rfl, ?_, fun other context hagain => ?_⟩, fun other context hagain => ?_⟩
    · rintro rfl
      cases hshown
    · obtain ⟨rfl, rfl⟩ := Prod.mk.inj (Option.some.inj (hshown.symm.trans hagain))
      exact ⟨rung, rfl, hrung⟩
    · obtain ⟨rfl, rfl⟩ := Prod.mk.inj (Option.some.inj (hshown.symm.trans hagain))
      exact hderives
  apply calm_of_events _ hstands hlog
  · intro event hevent
    rcases List.mem_append.1 hevent with hopens | hturn
    · rw [hopening event hopens]
      exact hown _ rfl
    rcases List.mem_append.1 hturn with hsaid | hended
    · obtain ⟨word, -, rfl⟩ := List.mem_map.1 hsaid
      exact hown _ rfl
    · split at hended
      · rw [List.mem_singleton.1 hended]
        exact ⟨⟨rfl, nofun, nofun⟩, nofun⟩
      · cases hended
  · intro task htask
    rw [hrunning, List.mem_append] at htask
    rcases htask with hother | hstays
    · exact .inl (hothers hother)
    · obtain ⟨rfl, rfl, -, -⟩ := mem_paused hstays
      exact .inr hderives

theorem calm_firstTurn (m : Machine τ σ ω ε) (rest : List (Queued τ)) (ticket : Nat) {rung : Bool}
    (hrung : RungBy rung m.deadline m.now) (turn : Turn σ ω ε) :
    m.Calm ((m.vacate rest).firstTurn ticket rung turn) := by
  obtain ⟨ownPlace, nextPlace, heq⟩ := m.firstTurn_vacate_eq rest ticket rung turn
  rw [heq]
  refine calm_of_turn [.started ticket (m.context m.deadline rung)] ⟨rfl, rfl, rfl, rfl⟩ rfl ?_
    rfl (List.Subset.refl _) ?_ fun _ => hrung
  · intro event hevent
    exact List.mem_singleton.1 hevent
  · exact .inr ⟨⟨_, List.mem_append_right _ List.mem_cons_self⟩, rfl⟩

theorem calm_launch (b : Behaviour τ σ ω ε) (m : Machine τ σ ω ε) (first : Queued τ)
    (rest : List (Queued τ)) : m.Calm ((m.vacate rest).launch b first) := by
  rw [launch_eq]
  exact m.calm_firstTurn rest first.ticket (m.rungBy_ringsFirst first.ticket) _

/-- The callers who are refused when the queue goes are shown no context. -/
theorem Calm.desert (hcalm : m.Calm m') : m.Calm m'.desert := by
  obtain ⟨entries, hlog, hshows⟩ := hcalm.log
  rw [desert_eq]
  have hquiet : ∀ entry ∈ ((m'.admitted ++ m'.waiting).map fun caller =>
      (.refused caller.ticket .shutdown : Event ε)).map fun event => (⟨m'.now, event⟩ : Entry ε),
      entry.instant = m'.now ∧ entry.event.shown? = none ∧
        entry.event ≠ .closed (.error .shutdownTimeout) := by
    intro entry hentry
    obtain ⟨event, hevent, rfl⟩ := List.mem_map.1 hentry
    obtain ⟨caller, -, rfl⟩ := List.mem_map.1 hevent
    exact ⟨rfl, rfl, nofun⟩
  refine ⟨⟨hcalm.settings, hcalm.circumstances, hcalm.now, hcalm.gaveUp⟩,
    ⟨entries ++ _, by rw [← List.append_assoc, ← hlog]; rfl, fun entry hentry => ?_⟩, ?_⟩
  · rcases List.mem_append.1 hentry with hbefore | hrefused
    · exact hshows entry hbefore
    · obtain ⟨hinstant, hnone, hpatient⟩ := hquiet entry hrefused
      exact ⟨hinstant.trans hcalm.now, hpatient, fun _ _ hshown => by simp [hnone] at hshown⟩
  · rintro ticket deadline (htask | ⟨entry, hentry, context, hshown, hdeadline⟩)
    · exact (hcalm.derives ticket deadline (.inl htask)).imp_right
        (.imp_left fun ⟨context, hstarted⟩ => ⟨context, List.mem_append_left _ hstarted⟩)
    · rcases List.mem_append.1 hentry with hbefore | hrefused
      · exact (hcalm.derives ticket deadline (.inr ⟨entry, hbefore, context, hshown, hdeadline⟩)
          ).imp_right
          (.imp_left fun ⟨context, hstarted⟩ => ⟨context, List.mem_append_left _ hstarted⟩)
      · rw [(hquiet entry hrefused).2.1] at hshown
        cases hshown

theorem calm_crash (m : Machine τ σ ω ε) (rest : List (Queued τ)) (ticket : Nat)
    (wreck : Wreck ω ε) : m.Calm ((m.vacate rest).crash ticket wreck) := by
  have hfirst : m.Calm ((m.vacate rest).firstTurn ticket false wreck.turn) :=
    m.calm_firstTurn rest ticket m.rungBy_false _
  have hwrecked : m.Calm ((m.vacate rest).wrecked ticket wreck) :=
    { hfirst with
      derives := fun ticket deadline htells =>
        (hfirst.derives ticket deadline (htells.imp id id)).imp id id }
  exact crash_induction hwrecked fun _ => Calm.desert

theorem calm_resume (b : Behaviour τ σ ω ε) {task : Running σ} (htask : task ∈ m.running)
    (cue : Cue) : m.Calm (m.resume b task cue) := by
  obtain ⟨ownPlace, nextPlace, heq⟩ := m.resume_eq b task cue
  rw [heq]
  exact calm_of_turn [] ⟨rfl, rfl, rfl, rfl⟩ rfl nofun rfl (List.filter_subset_self _)
    (.inl (.inl ⟨task, htask, rfl, rfl⟩)) fun htimely => htimely task htask

/-- An alarm is shown to nobody. -/
theorem calm_ring (m : Machine τ σ ω ε) (ticket : Nat) : m.Calm (m.ring ticket) := by
  refine ⟨⟨rfl, rfl, rfl, rfl⟩, ⟨[], (List.append_nil _).symm, nofun⟩, ?_⟩
  rintro other deadline (⟨task, htask, hticket, hdeadline⟩ | hshown)
  · obtain ⟨before, hbefore, rfl⟩ := List.mem_map.1 htask
    refine .inl (.inl ⟨before, hbefore, ?_⟩)
    split at hticket <;> exact ⟨‹_›, by split at hdeadline <;> exact hdeadline⟩
  · exact .inl (.inr hshown)

/-- A note that shows no context is calm, unless it is of the end of patience. -/
theorem calm_note {between : Machine τ σ ω ε} {event : Event ε} (hstands : m.Stands between)
    (hlog : between.log = m.log) (hrunning : between.running = m.running)
    (hnone : event.shown? = none) (hpatient : event ≠ .closed (.error .shutdownTimeout)) :
    m.Calm (between.note event) := by
  refine calm_of_quiet [event] { hstands with } ?_ ?_ hrunning
  · rw [note, hlog, hstands.now]
    rfl
  · intro other hother
    rw [List.mem_singleton.1 hother]
    exact ⟨hnone, hpatient⟩

/-- So is what is not written down. -/
theorem calm_of_silent (hstands : m.Stands m') (hlog : m'.log = m.log)
    (hrunning : m'.running = m.running) : m.Calm m' :=
  calm_of_quiet [] hstands (by simp [hlog]) nofun hrunning

theorem calm_callerTurn (m : Machine τ σ ω ε) (ticket : Nat) : m.Calm (m.callerTurn ticket) := by
  unfold callerTurn
  split
  · exact calm_note ⟨rfl, rfl, rfl, rfl⟩ rfl rfl rfl nofun
  split
  · exact calm_note ⟨rfl, rfl, rfl, rfl⟩ rfl rfl rfl nofun
  · exact calm_of_silent ⟨rfl, rfl, rfl, rfl⟩ rfl rfl

theorem calm_enterAll (m : Machine τ σ ω ε) : m.Calm m.enterAll := by
  rw [enterAll_eq]
  refine calm_of_quiet (m.admitted.map fun caller => .accepted caller.ticket) ⟨rfl, rfl, rfl, rfl⟩
    (by simp) ?_ rfl
  intro event hevent
  obtain ⟨caller, -, rfl⟩ := List.mem_map.1 hevent
  exact ⟨rfl, nofun⟩

theorem calm_shut (m : Machine τ σ ω ε) : m.Calm m.shut := by
  rw [shut_eq]
  refine calm_of_quiet ((m.admitted ++ m.waiting).map fun caller =>
    .refused caller.ticket .shutdown) ⟨rfl, rfl, rfl, rfl⟩ rfl ?_ rfl
  intro event hevent
  obtain ⟨caller, -, rfl⟩ := List.mem_map.1 hevent
  exact ⟨rfl, nofun⟩

theorem calm_submit (m : Machine τ σ ω ε) (task : τ) : m.Calm (m.submit task).2 := by
  obtain ⟨-, -, hsubmit⟩ | ⟨error, -, hsubmit⟩ := m.submit_cases task
  · rw [hsubmit]
    exact calm_note ⟨rfl, rfl, rfl, rfl⟩ rfl rfl rfl nofun
  · rw [hsubmit]
    exact calm_note ⟨rfl, rfl, rfl, rfl⟩ rfl rfl rfl nofun

theorem calm_submitWait (m : Machine τ σ ω ε) (task : τ) (patience : Nat) (inFront : Bool) :
    m.Calm (m.submitWait task patience inFront).2 := by
  rw [submitWait_eq]
  split
  · exact calm_note ⟨rfl, rfl, rfl, rfl⟩ rfl rfl rfl nofun
  split
  · exact calm_note ⟨rfl, rfl, rfl, rfl⟩ rfl rfl rfl nofun
  split
  · exact calm_note ⟨rfl, rfl, rfl, rfl⟩ rfl rfl rfl nofun
  · exact calm_of_silent ⟨rfl, rfl, rfl, rfl⟩ rfl rfl

/-- Every step is calm but the one by which the call that closed the pool gives up. -/
theorem Step.calm_or_giveUp (hstep : Step b m m') : m.Calm m' ∨ m' = m.giveUp := by
  cases hstep with
  | work hwork =>
      left
      cases hwork with
      | launch => exact calm_launch ..
      | crash => exact calm_crash ..
      | resume htask => exact calm_resume b htask _
      | ring ticket => exact calm_ring m ticket
      | enterAll => exact calm_enterAll m
      | callerTurn => exact calm_callerTurn ..
  | finishClosing => exact .inl (calm_note ⟨rfl, rfl, rfl, rfl⟩ rfl rfl rfl nofun)
  | giveUp => exact .inr rfl

/-- Whatever happens to a pool is calm, unless it is the end of patience or that time passes. -/
theorem Happening.cases_calm (hhappening : Happening b m m') :
    m.Calm m' ∨ m' = m.giveUp ∨ ∃ instant, m' = { m with now := instant } := by
  cases hhappening with
  | change hchange =>
      cases hchange with
      | step hstep => exact hstep.calm_or_giveUp.imp_right .inl
      | clock instant => exact .inr (.inr ⟨instant, rfl⟩)
      | shut => exact .inl (calm_shut m)
      | await => exact .inl (calm_of_silent ⟨rfl, rfl, rfl, rfl⟩ rfl rfl)
      | closed => exact .inl (calm_note ⟨rfl, rfl, rfl, rfl⟩ rfl rfl rfl nofun)
  | submit task => exact .inl (calm_submit m task)
  | submitWait task patience inFront => exact .inl (calm_submitWait m task patience inFront)
  | share => exact .inl (calm_of_silent ⟨rfl, rfl, rfl, rfl⟩ rfl rfl)

end Calm

/-! ## The two reasons -/

/-- All contexts that a task has or has been shown are cancelled for the two reasons, and for no
other. -/
structure Exact (m : Machine τ σ ω ε) : Prop where
  gaveUp_iff : m.gaveUp = true ↔ RanOut m.log
  allots : ∀ ticket deadline, m.Tells ticket deadline → m.Allots ticket deadline
  shown : ∀ earlier entry later, m.log = earlier ++ entry :: later →
    ∀ ticket context, entry.event.shown? = some (ticket, context) →
      context.now = entry.instant ∧
        CancelledFor context.cancelled context.deadline entry.instant (RanOut earlier)
  timely : m.Timely

section Exact

variable {b : Behaviour τ σ ω ε} {m m' : Machine τ σ ω ε} {ticket deadline : Nat}

theorem StartedAt.mono {started : Nat} (hstarted : m.StartedAt ticket started)
    (hlog : m.log <+: m'.log) : m'.StartedAt ticket started := by
  obtain ⟨context, hentry⟩ := hstarted
  exact ⟨context, hlog.subset hentry⟩

theorem Allots.mono (hallots : m.Allots ticket deadline) (hlasts : m.Lasts m') :
    m'.Allots ticket deadline := by
  obtain ⟨started, hstarted, rfl⟩ := hallots
  exact ⟨started, hstarted.mono hlasts.log, by rw [hlasts.settings, hlasts.circumstances]⟩

/-- Where a task is taken up, its context is shown at that moment. -/
theorem Exact.hasStarted (hexact : m.Exact) {started : Nat}
    (hstarted : m.StartedAt ticket started) :
    ∃ context, m.HasStarted ticket context ∧ context.now = started := by
  obtain ⟨context, hentry⟩ := hstarted
  obtain ⟨earlier, later, hsplit⟩ := List.append_of_mem hentry
  refine ⟨context, ?_, (hexact.shown earlier _ later hsplit ticket context rfl).1⟩
  exact List.mem_filterMap.2 ⟨_, hentry, rfl⟩

/-- A task is started at one instant. -/
theorem Exact.startedAt_unique (hexact : m.Exact) (htidy : m.Tidy) {started again : Nat}
    (hstarted : m.StartedAt ticket started) (hagain : m.StartedAt ticket again) :
    again = started := by
  obtain ⟨context, hcontext, rfl⟩ := hexact.hasStarted hstarted
  obtain ⟨other, hother, rfl⟩ := hexact.hasStarted hagain
  rw [htidy.hasStarted_unique hcontext hother]

/-- So a deadline that stands anywhere is the one that was given to the task at its start. -/
theorem Exact.deadline_eq (hexact : m.Exact) (htidy : m.Tidy) {started : Nat}
    (htells : m.Tells ticket deadline) (hstarted : m.StartedAt ticket started) :
    deadline = m.circumstances.deadlineAfter started m.settings.taskTimeout := by
  obtain ⟨again, hagain, rfl⟩ := hexact.allots ticket deadline htells
  rw [hexact.startedAt_unique htidy hstarted hagain]

theorem Exact.calm (hexact : m.Exact) (hcalm : m.Calm m') (htimely : m'.Timely) : m'.Exact := by
  obtain ⟨entries, hlog, hshows⟩ := hcalm.log
  have hranOut : ∀ {some : List (Entry ε)}, some ⊆ entries →
      (RanOut (m.log ++ some) ↔ RanOut m.log) :=
    fun hsome => ranOut_append fun entry hentry => (hshows entry (hsome hentry)).patient
  have hprefix : m.log <+: m'.log := hlog ▸ List.prefix_append ..
  refine ⟨?_, ?_, ?_, htimely⟩
  · rw [hcalm.gaveUp, hlog, hranOut (List.Subset.refl _)]
    exact hexact.gaveUp_iff
  · intro ticket deadline htells
    rcases hcalm.derives ticket deadline htells with hold | ⟨hstarted, rfl⟩
    · exact (hexact.allots ticket deadline hold).mono
        ⟨hcalm.settings, hprefix, hcalm.circumstances⟩
    · exact ⟨m.now, hstarted, by rw [hcalm.settings, hcalm.circumstances]; rfl⟩
  · intro earlier entry later hsplit ticket context hshown
    rw [hlog] at hsplit
    rcases split_append hsplit with ⟨rest, hold⟩ | ⟨between, rfl, hnew⟩
    · exact hexact.shown earlier entry rest hold ticket context hshown
    · have hentry := hshows entry (hnew ▸ List.mem_append_right _ List.mem_cons_self)
      have hbetween : between ⊆ entries := hnew ▸ List.subset_append_left ..
      obtain ⟨rung, hcontext, hrung⟩ := hentry.context ticket context hshown
      rw [hranOut hbetween, hentry.instant]
      refine ⟨congrArg Context.now hcontext, ?_⟩
      rw [show context.cancelled = (m.gaveUp || rung) from congrArg Context.cancelled hcontext]
      exact (hrung hexact.timely).cancelledFor hexact.gaveUp_iff

/-- To give up tells no task of another deadline. -/
theorem Tells.of_giveUp (htells : m.giveUp.Tells ticket deadline) : m.Tells ticket deadline := by
  rcases htells with htask | ⟨entry, hentry, context, hshown, hdeadline⟩
  · exact .inl htask
  · rcases List.mem_append.1 hentry with hold | hnew
    · exact .inr ⟨entry, hold, context, hshown, hdeadline⟩
    · rw [List.mem_singleton.1 hnew] at hshown
      cases hshown

theorem Exact.giveUp (hexact : m.Exact) : m.giveUp.Exact := by
  have hranOut : RanOut m.giveUp.log := ⟨m.now, List.mem_append_right _ List.mem_cons_self⟩
  refine ⟨⟨fun _ => hranOut, fun _ => rfl⟩, fun ticket deadline htells => ?_, ?_, hexact.timely⟩
  · exact (hexact.allots ticket deadline htells.of_giveUp).mono
      ⟨rfl, List.prefix_append .., rfl⟩
  · intro earlier entry later hsplit ticket context hshown
    rcases split_append hsplit with ⟨rest, hold⟩ | ⟨between, -, hnew⟩
    · exact hexact.shown earlier entry rest hold ticket context hshown
    · have hentry := List.mem_append_right between (List.mem_cons_self (a := entry) (l := later))
      rw [← hnew, List.mem_singleton] at hentry
      rw [hentry] at hshown
      cases hshown

theorem exact_fresh (settings : Settings) (world : ω) (circumstances : Circumstances) :
    (fresh settings world circumstances : Machine τ σ ω ε).Exact := by
  refine ⟨⟨nofun, nofun⟩, ?_, ?_, nofun⟩
  · rintro ticket deadline (⟨task, htask, -⟩ | ⟨entry, hentry, -⟩)
    · cases htask
    · cases hentry
  · intro earlier entry later hsplit
    cases earlier <;> cases hsplit

end Exact

/-! ## As time goes on -/

/-- Something happens, and time does not go back; nor does it pass by the deadline of a task whose
worker has not noticed it. -/
structure Onward (b : Behaviour τ σ ω ε) (m m' : Machine τ σ ω ε) : Prop where
  happening : Happening b m m'
  le_now : m.now ≤ m'.now
  stops : m.now < m'.now → ∀ task ∈ m.running, task.rung = false → m'.now ≤ task.deadline

/-- Any number of things happen, as time goes on. -/
abbrev Onwards (b : Behaviour τ σ ω ε) : Machine τ σ ω ε → Machine τ σ ω ε → Prop :=
  Relation.ReflTransGen (Onward b)

section Onwards

variable {b : Behaviour τ σ ω ε} {m m' : Machine τ σ ω ε}

theorem Onwards.reaches (honwards : Onwards b m m') : Reaches b m m' :=
  honwards.lift id fun _ _ => Onward.happening

/-- What takes no time may happen at any moment. -/
theorem Happening.onward (hhappening : Happening b m m') (hnow : m'.now = m.now) :
    Onward b m m' :=
  ⟨hhappening, hnow.ge, fun hlater => absurd hnow hlater.ne'⟩

theorem Step.onward (hstep : Step b m m') : Onward b m m' := by
  refine Happening.onward (.change (.step hstep)) ?_
  rcases hstep.calm_or_giveUp with hcalm | rfl
  · exact hcalm.now
  · rfl

theorem Steps.onwards (hsteps : Steps b m m') : Onwards b m m' :=
  hsteps.lift id fun _ _ => Step.onward

/-- What happens in a pool as long as nobody closes it happens as time goes on. -/
theorem Move.onward (hmove : Move b m m') : Onward b m m' := by
  cases hmove with
  | due hdue => exact hdue.step.onward
  | submit task => exact Happening.onward (.submit m task) (calm_submit m task).now
  | submitWait task patience inFront =>
      exact Happening.onward (.submitWait m task patience inFront) (calm_submitWait ..).now
  | share world => exact Happening.onward (.share m world) rfl
  | clock hpunctual hlater hlimit hdeadline =>
      exact ⟨.change (.clock m _), hlater.le, fun _ => hdeadline⟩

theorem Course.onwards (hcourse : Course b m m') : Onwards b m m' :=
  hcourse.lift id fun _ _ => Move.onward

/-- So does what a call to close it comes to. -/
theorem onwards_close (hsound : m.Sound) (patience : Nat) (inFront : Bool) :
    Onwards b m (m.close b patience inFront) := by
  have hsettle : ∀ {between after : Machine τ σ ω ε}, between.Sound → Happening b between after →
      after.now = between.now → Onwards b between (after.settle b) := by
    intro between after hbetween hhappening hnow
    have hafter := (hbetween.happening hhappening).tidy
    exact .head (hhappening.onward hnow) (steps_settle b hafter).onwards
  rw [close_eq]
  split
  · have hshut : Happening b m m.shut := .change (.shut m)
    refine .head (hshut.onward (calm_shut m).now) ?_
    split
    · exact hsettle (hsound.happening hshut) (.change (.step (.giveUp m.shut))) rfl
    · exact hsettle (hsound.happening hshut) (.change (.await ..)) rfl
  · exact .single (Happening.onward (.change (.closed m)) rfl)

/-- Time goes on in a run. -/
theorem onwards_perform (hsound : m.Sound) (hpunctual : m.Punctual) (call : Call τ σ ω) :
    Onwards b m (m.perform b call) := by
  by_cases hcall : call.isClose
  · cases call with
    | close patience inFront => exact onwards_close hsound patience inFront
    | submit | submitWait | pass | release => cases hcall
  · exact (course_perform hsound hpunctual (by simpa using hcall)).1.onwards

theorem onwards_run (hsound : m.Sound) (hpunctual : m.Punctual) (calls : List (Call τ σ ω)) :
    Onwards b m (m.run b calls) := by
  induction calls generalizing m with
  | nil => exact .refl
  | cons call calls ih =>
      have hfirst := onwards_perform (b := b) hsound hpunctual call
      exact hfirst.trans (ih (hsound.reaches hfirst.reaches) (hpunctual.perform hsound call))

theorem Onward.timely (honward : Onward b m m') (htimely : m.Timely) : m'.Timely := by
  obtain ⟨hhappening, hlater, hstops⟩ := honward
  cases hhappening with
  | change hchange =>
      cases hchange with
      | step hstep => exact htimely.step hstep
      | clock instant => exact htimely.clock hlater hstops
      | await | closed => exact htimely
      | shut =>
          rw [shut_eq]
          exact htimely
  | submit task => exact htimely.submit task
  | submitWait task patience inFront => exact htimely.submitWait task patience inFront
  | share => exact htimely

/-- Whatever happens to a pool as time goes on, contexts are cancelled for the two reasons. -/
theorem Exact.onward (hexact : m.Exact) (honward : Onward b m m') : m'.Exact := by
  have htimely := honward.timely hexact.timely
  obtain hcalm | rfl | ⟨instant, rfl⟩ := honward.happening.cases_calm
  · exact hexact.calm hcalm htimely
  · exact hexact.giveUp
  · exact ⟨hexact.gaveUp_iff, hexact.allots, hexact.shown, htimely⟩

theorem Exact.onwards (hexact : m.Exact) (honwards : Onwards b m m') : m'.Exact := by
  induction honwards with
  | refl => exact hexact
  | tail _ honward ih => exact ih.onward honward

/-- Nothing is written down before it happens. -/
theorem Past.onward (hpast : m.Past) (honward : Onward b m m') : m'.Past := by
  obtain hcalm | rfl | ⟨instant, rfl⟩ := honward.happening.cases_calm
  · obtain ⟨entries, hlog, hshows⟩ := hcalm.log
    intro entry hentry
    rw [hlog, List.mem_append] at hentry
    rw [hcalm.now]
    rcases hentry with hold | hnew
    · exact hpast entry hold
    · exact (hshows entry hnew).instant.le
  · intro entry hentry
    rcases List.mem_append.1 hentry with hold | hnew
    · exact hpast entry hold
    · rw [List.mem_singleton.1 hnew]
      exact le_refl m.now
  · intro entry hentry
    exact (hpast entry hentry).trans honward.le_now

theorem Past.onwards (hpast : m.Past) (honwards : Onwards b m m') : m'.Past := by
  induction honwards with
  | refl => exact hpast
  | tail _ honward ih => exact ih.onward honward

end Onwards

/-! ## Every context -/

/-- If something that happens cancels the context of a running task, then the call that closed the
pool gives up by it, or the worker of this task notices that its time is up. -/
def OnlyByTime (timeUp : Nat → Nat) (before after : Machine τ σ ω ε) : Prop :=
  ∀ task ∈ before.running, ∀ later ∈ after.running, later.ticket = task.ticket →
    (before.context task.deadline task.rung).cancelled = false →
    (after.context later.deadline later.rung).cancelled = true →
      after = before.giveUp ∨
        ∃ started, before.StartedAt task.ticket started ∧ timeUp started ≤ before.now ∧
          after = before.ring task.ticket

/-- Contexts are cancelled exactly when they are to be, where the time of a task that starts at an
instant is up at another one. -/
structure CancelsExactly (b : Behaviour τ σ ω ε) (timeUp : Nat → Nat) (m : Machine τ σ ω ε) :
    Prop where
  /-- Every task that runs has been started. -/
  started : ∀ task ∈ m.running, ∃ started, m.StartedAt task.ticket started
  /-- Its context is cancelled for no other reason than that its time is up, or that a call to close
  the pool has run out of patience by now; and it is cancelled if its time has been up before. -/
  running : ∀ task ∈ m.running, ∀ started, m.StartedAt task.ticket started →
    CancelledFor (m.context task.deadline task.rung).cancelled (timeUp started) m.now
      (∃ instant ≤ m.now, ⟨instant, .closed (.error .shutdownTimeout)⟩ ∈ m.log)
  /-- When nothing more happens at this instant, it is cancelled if and only if there is one of
  these reasons, and nobody is left waiting for a cancellation that has happened. -/
  settled : m.AtRest → ∀ task ∈ m.running, ∀ started, m.StartedAt task.ticket started →
    ((m.context task.deadline task.rung).cancelled = true ↔ timeUp started ≤ m.now ∨
        ∃ instant ≤ m.now, ⟨instant, .closed (.error .shutdownTimeout)⟩ ∈ m.log) ∧
      (task.pause.heedsCancel = true → (m.context task.deadline task.rung).cancelled = false)
  /-- The contexts that tasks saw when they started, and whenever they spoke, were cancelled for
  these reasons. -/
  shown : ∀ earlier entry later, m.log = earlier ++ entry :: later →
    ∀ ticket context, entry.event.shown? = some (ticket, context) →
      ∀ started, m.StartedAt ticket started →
        CancelledFor context.cancelled (timeUp started) entry.instant (RanOut earlier)
  /-- A task that starts after patience has run out starts cancelled. -/
  late : ∀ earlier instant ticket context later,
    m.log = earlier ++ ⟨instant, .started ticket context⟩ :: later → RanOut earlier →
      context.cancelled = true
  /-- Nothing that can happen next cancels a context for any other reason. -/
  only : ∀ after, Happening b m after → OnlyByTime timeUp m after

section Exactly

variable {b : Behaviour τ σ ω ε} {m : Machine τ σ ω ε}

/-- Only its own alarm makes a worker notice that the time of its task is up. -/
theorem Tidy.rung_of_happening (htidy : m.Tidy) {after : Machine τ σ ω ε}
    (hhappening : Happening b m after) {task later : Running σ} (htask : task ∈ m.running)
    (hlater : later ∈ after.running) (hsame : later.ticket = task.ticket) :
    later.rung = task.rung ∨ task.deadline ≤ m.now ∧ after = m.ring task.ticket := by
  have hstill : later ∈ m.running → later.rung = task.rung := fun hruns =>
    congrArg Running.rung (List.inj_on_of_nodup_map htidy.nodup_running hruns htask hsame)
  cases hhappening with
  | change hchange =>
      cases hchange with
      | step hstep =>
          cases hstep with
          | work hwork =>
              cases hwork with
              | @launch first rest hqueue =>
                  obtain ⟨ownPlace, nextPlace, heq⟩ := m.firstTurn_vacate_eq rest first.ticket _ _
                  rw [launch_eq, heq, List.mem_append] at hlater
                  refine .inl (hstill (hlater.resolve_right fun hnew => ?_))
                  have hfront : first.ticket ∈ m.frontTickets := by simp [frontTickets, hqueue]
                  exact (List.nodup_append.1 htidy.nodup).2.2 _ (htidy.running_started task htask)
                    _ hfront (hsame.symm.trans (mem_paused hnew).1)
              | crash =>
                  rw [running_crash] at hlater
                  exact .inl (hstill hlater)
              | @resume resumed cue hruns =>
                  obtain ⟨ownPlace, nextPlace, heq⟩ := m.resume_eq b resumed cue
                  rw [heq, List.mem_append] at hlater
                  left
                  rcases hlater with hother | hagain
                  · exact hstill (List.mem_of_mem_filter hother)
                  · obtain ⟨hticket, -, hrung, -⟩ := mem_paused hagain
                    have hown := List.inj_on_of_nodup_map htidy.nodup_running hruns htask
                      (hticket.symm.trans hsame)
                    rw [hrung, hown]
              | ring ticket =>
                  obtain ⟨before, hbefore, rfl⟩ := List.mem_map.1 hlater
                  split at hsame
                  next hrings =>
                    obtain rfl :=
                      List.inj_on_of_nodup_map htidy.nodup_running hbefore htask hsame
                    exact .inr ⟨hrings.2, by rw [hrings.1]⟩
                  next hsilent =>
                    rw [if_neg hsilent]
                    obtain rfl :=
                      List.inj_on_of_nodup_map htidy.nodup_running hbefore htask hsame
                    exact .inl rfl
              | enterAll =>
                  rw [enterAll_eq] at hlater
                  exact .inl (hstill hlater)
              | callerTurn =>
                  rw [(m.callerTurn_rest _).2.2] at hlater
                  exact .inl (hstill hlater)
          | finishClosing | giveUp => exact .inl (hstill hlater)
      | clock | await | closed => exact .inl (hstill hlater)
      | shut =>
          rw [shut_eq] at hlater
          exact .inl (hstill hlater)
  | submit task =>
      left
      obtain ⟨-, -, hsubmit⟩ | ⟨error, -, hsubmit⟩ := m.submit_cases task
      · rw [hsubmit] at hlater
        exact hstill hlater
      · rw [hsubmit] at hlater
        exact hstill hlater
  | submitWait task patience inFront =>
      left
      rw [submitWait_eq] at hlater
      split at hlater
      · exact hstill hlater
      split at hlater
      · exact hstill hlater
      split at hlater <;> exact hstill hlater
  | share => exact .inl (hstill hlater)

theorem Exact.onlyByTime (hexact : m.Exact) (htidy : m.Tidy) {after : Machine τ σ ω ε}
    (hhappening : Happening b m after) :
    OnlyByTime (m.circumstances.deadlineAfter · m.settings.taskTimeout) m after := by
  intro task htask later hlater hsame hbefore hcancelled
  rw [context, Bool.or_eq_false_iff] at hbefore
  rw [context, Bool.or_eq_true] at hcancelled
  rcases hcancelled with hgaveUp | hrung
  · left
    obtain hcalm | hgives | ⟨instant, rfl⟩ := hhappening.cases_calm
    · rw [hcalm.gaveUp, hbefore.1] at hgaveUp
      cases hgaveUp
    · exact hgives
    · rw [hbefore.1] at hgaveUp
      cases hgaveUp
  · right
    obtain ⟨started, hstarted, hdeadline⟩ := hexact.allots _ _ (.inl ⟨task, htask, rfl, rfl⟩)
    rcases htidy.rung_of_happening hhappening htask hlater hsame with hsilent | ⟨hdue, hrings⟩
    · rw [hsilent, hbefore.2] at hrung
      cases hrung
    · exact ⟨started, hstarted, hdeadline.symm.trans_le hdue, hrings⟩

/-- When patience has run out, that has not happened later than now. -/
theorem Exact.gaveUp_iff_past (hexact : m.Exact) (hpast : m.Past) :
    m.gaveUp = true ↔ ∃ instant ≤ m.now, ⟨instant, .closed (.error .shutdownTimeout)⟩ ∈ m.log := by
  rw [hexact.gaveUp_iff]
  constructor
  · rintro ⟨instant, hentry⟩
    exact ⟨instant, hpast _ hentry, hentry⟩
  · rintro ⟨instant, -, hentry⟩
    exact ⟨instant, hentry⟩

theorem Exact.cancelsExactly (hexact : m.Exact) (hsound : m.Sound) (hpast : m.Past) :
    m.CancelsExactly b (m.circumstances.deadlineAfter · m.settings.taskTimeout) := by
  have hrunning : ∀ task ∈ m.running, ∀ started, m.StartedAt task.ticket started →
      task.deadline = m.circumstances.deadlineAfter started m.settings.taskTimeout :=
    fun task htask started =>
      hexact.deadline_eq hsound.tidy (.inl ⟨task, htask, rfl, rfl⟩)
  have hcancelled : ∀ task ∈ m.running,
      CancelledFor (m.context task.deadline task.rung).cancelled task.deadline m.now
        (∃ instant ≤ m.now, ⟨instant, .closed (.error .shutdownTimeout)⟩ ∈ m.log) :=
    fun task htask => (hexact.timely task htask).cancelledFor (hexact.gaveUp_iff_past hpast)
  constructor
  · intro task htask
    obtain ⟨started, hstarted, -⟩ := hexact.allots _ _ (.inl ⟨task, htask, rfl, rfl⟩)
    exact ⟨started, hstarted⟩
  · intro task htask started hstarted
    rw [← hrunning task htask started hstarted]
    exact hcancelled task htask
  · intro hrest task htask started hstarted
    have hattended := hrest.punctual.attended task htask
    obtain ⟨hreason, hsure⟩ := hcancelled task htask
    rw [← hrunning task htask started hstarted]
    refine ⟨⟨hreason, fun hdue => ?_⟩, fun hheeds => ?_⟩
    · rcases hdue with hpassed | hranOut
      · rw [context, hattended.rung hpassed, Bool.or_true]
      · exact hsure (.inr hranOut)
    · by_contra hcancels
      simp [hattended.heard (by simpa using hcancels)] at hheeds
  · intro earlier entry later hsplit ticket context hshown started hstarted
    have hentry : entry ∈ m.log := hsplit ▸ List.mem_append_right _ List.mem_cons_self
    have htells : m.Tells ticket context.deadline := .inr ⟨entry, hentry, context, hshown, rfl⟩
    rw [← hexact.deadline_eq hsound.tidy htells hstarted]
    exact (hexact.shown earlier entry later hsplit ticket context hshown).2
  · intro earlier instant ticket context later hsplit hranOut
    exact (hexact.shown earlier _ later hsplit ticket context rfl).2.sure (.inr hranOut)
  · intro after hhappening
    exact hexact.onlyByTime hsound.tidy hhappening

end Exactly

/-- In every run, contexts are cancelled exactly when they are to be: at any moment, between two
calls, between two instants or in the middle of one. The time of a task is up when the task timeout
has passed since its start, or the longest one, if the clock cannot show that. -/
theorem cancellation_of_run (b : Behaviour τ σ ω ε) (settings : Settings) (world : ω)
    (circumstances : Circumstances) (calls : List (Call τ σ ω)) :
    let pool : Machine τ σ ω ε := fresh settings world circumstances
    Onwards b pool (pool.run b calls) ∧ (pool.run b calls).AtRest ∧
      ∀ moment, Onwards b pool moment →
        moment.CancelsExactly b (circumstances.deadlineAfter · settings.taskTimeout) := by
  intro pool
  have hsound : pool.Sound := sound_fresh settings world circumstances
  have hrest : pool.AtRest := atRest_fresh settings world circumstances
  refine ⟨onwards_run hsound hrest.punctual calls, hrest.run hsound calls,
    fun moment honwards => ?_⟩
  have hexact := (exact_fresh settings world circumstances).onwards honwards
  have hnothing : pool.Past := nofun
  have hlasts := lasting_reaches honwards.reaches
  have hsettings : moment.settings = settings := hlasts.settings
  have hcircumstances : moment.circumstances = circumstances := hlasts.circumstances
  rw [← hsettings, ← hcircumstances]
  exact hexact.cancelsExactly (hsound.reaches honwards.reaches) (hnothing.onwards honwards)

/-- A pool whose tasks may take as long as a span of time can be, and the task that it has been
running for thirty years. -/
def endless : Drill.Squad :=
  (fresh (.of 1 1 18446744073709551615999999999) {}).run Drill.behaviour
    [.submit ⟨"sleep", .sleep 1000000000000000000⟩, .pass longestTimeout]

/-- Its context is cancelled, although the task timeout has not passed since its start, and nobody
has closed the pool. -/
theorem cancelled_of_endless :
    endless.StartedAt 0 0 ∧ endless.running.map (·.ticket) = [0] ∧
      endless.now < 0 + endless.settings.taskTimeout ∧ ¬RanOut endless.log ∧
      ∀ task ∈ endless.running, (endless.context task.deadline task.rung).cancelled = true := by
  have hlog : endless.log =
      [⟨0, .accepted 0⟩, ⟨0, .started 0 ⟨0, 946080000000000000, false⟩⟩] := by cbv
  have hrunning : endless.running = [⟨0, 946080000000000000, true, 2, .asleep,
      { wake := some 1000000000000000000 }⟩] := by cbv
  have hnow : endless.now < 0 + endless.settings.taskTimeout := by cbv
  refine ⟨⟨⟨0, 946080000000000000, false⟩, by simp [hlog]⟩, by simp [hrunning], hnow, ?_, ?_⟩
  · rintro ⟨instant, hentry⟩
    simp [hlog] at hentry
  · simp [hrunning, context]

-- Two tasks that may take ten, the second of which starts four later than the first: at eleven,
-- only the time of the first is up.
example :
    let pool : Drill.Squad := (fresh (.of 2 1 10) {}).run Drill.behaviour
      [.submit ⟨"early", .sleep 20⟩, .pass 4, .submit ⟨"late", .sleep 20⟩, .pass 7]
    (pool.now, pool.running.map fun task =>
        (task.ticket, (pool.context task.deadline task.rung).cancelled)) =
      (11, [(0, true), (1, false)]) := by
  cbv

end Machine

end Upkeep.Pool
