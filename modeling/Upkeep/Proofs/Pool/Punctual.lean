/-
# Nobody is left waiting in vain

What somebody in a pool waits for may happen in the middle of an instant, in any order with other
things. Once the pool has settled, all that has been seen to: the call that closed the pool waits
neither past the end of its patience nor for tasks when none is left, and no task waits for what
has happened already, be it an instant, its deadline or that the contexts were given up. Nor is
there a deadline that has come and that the worker has not noticed.

That is what the two rounds of an instant are for. In the first one the call that closed the pool
gets its turn, if its patience has ended; it may give up the contexts, and those who heed that get
their turns in the second one. A task that starts, or goes on, in a cancelled context does not
wait for its cancellation, and a worker that looks at the clock looks at its task afterwards.
-/

import Upkeep.Proofs.Pool.Loops

namespace Upkeep.Pool.Machine

variable {τ σ ω ε : Type}

/-- The worker of a task has nothing to see to for it now. -/
structure Attended (m : Machine τ σ ω ε) (task : Running σ) : Prop where
  uncued : m.cue? task = none
  rung : task.deadline ≤ m.now → task.rung = true

/-- Nobody waits for anything that has happened already. -/
structure Punctual (m : Machine τ σ ω ε) : Prop where
  ahead : ∀ closing, m.closing = some closing → m.now < closing.limit
  undrained : m.closing.isSome = true → m.isDrained = false
  attended : ∀ task ∈ m.running, m.Attended task

/-! ## The call that closed the pool -/

/-- Its turn is the last thing that the call waits for. -/
theorem closing_giveTurn_closer (b : Behaviour τ σ ω ε) (m : Machine τ σ ω ε) :
    (m.giveTurn b .closer).closing = none := by
  simp only [giveTurn]
  split <;> rfl

section Closer

variable {b : Behaviour τ σ ω ε} {m : Machine τ σ ω ε}

/-- Who still waits for the tasks after a round has done so before, and has patience left. -/
theorem Tidy.ahead_round (htidy : m.Tidy) {closing : Closing}
    (hclosing : (m.round b).closing = some closing) :
    m.closing = some closing ∧ m.now < closing.limit := by
  have hturns := dueParties_induction b htidy
    (P := fun parties between => between.now = m.now ∧
      ∀ closing, between.closing = some closing →
        m.closing = some closing ∧ (closing.limit ≤ m.now → .closer ∈ parties))
    ⟨rfl, fun closing hsome => ⟨hsome, fun hlimit => ?_⟩⟩ ?_
  · rw [round, (works_follow b _).same.closing] at hclosing
    obtain ⟨hbefore, hdue⟩ := hturns.2 closing hclosing
    exact ⟨hbefore, Nat.lt_of_not_le fun hlimit => List.not_mem_nil (hdue hlimit)⟩
  · exact closer_mem_dueParties hsome hlimit
  · rintro party parties between - - ⟨hnow, hwaits⟩
    refine ⟨(now_giveTurn b between party).trans hnow, fun closing hsome => ?_⟩
    by_cases hcloser : party = .closer
    · rw [hcloser, closing_giveTurn_closer] at hsome
      cases hsome
    · rw [(same_giveTurn b between hcloser).closing] at hsome
      obtain ⟨hbefore, hdue⟩ := hwaits closing hsome
      refine ⟨hbefore, fun hlimit => ?_⟩
      exact (List.mem_cons.1 (hdue hlimit)).resolve_left (Ne.symm hcloser)

/-- As long as the call has patience, a round is nothing to the closing of the pool. -/
theorem Tidy.same_round (htidy : m.Tidy)
    (hahead : ∀ closing, m.closing = some closing → m.now < closing.limit) :
    m.Same (m.round b) := by
  have hturns := dueParties_induction b htidy (P := fun _ => m.Same) (.refl m) ?_
  · exact hturns.trans (works_follow b _).same
  · intro party parties between _ hawaits hsame
    by_cases hcloser : party = .closer
    · subst hcloser
      obtain ⟨closing, hclosing, hlimit⟩ := hawaits
      rw [hsame.closing] at hclosing
      rw [hsame.now] at hlimit
      exact absurd hlimit (Nat.not_le_of_lt (hahead closing hclosing))
    · exact hsame.trans (same_giveTurn b between hcloser)

end Closer

/-! ## Tasks and what they wait for -/

section Attended

variable {b : Behaviour τ σ ω ε} {m m' : Machine τ σ ω ε} {ticket : Nat} {other : Running σ}

theorem cancelled_context (hgaveUp : m.gaveUp = true) (deadline : Nat) (rung : Bool) :
    (m.context deadline rung).cancelled = true := by
  simp [context, hgaveUp]

/-- Who heeds the cancellation of the context is not left waiting in a cancelled one. -/
theorem Attended.heard {task : Running σ} (hattended : m.Attended task)
    (hcancelled : (m.context task.deadline task.rung).cancelled = true) :
    task.pause.heedsCancel = false := by
  have hcue := hattended.uncued
  by_contra hheeds
  unfold cue? at hcue
  split at hcue
  · cases hcue
  · simp [hheeds, hcancelled] at hcue

/-- Whether what a task waits for has happened depends on the clock, and on whether the contexts
have been given up. -/
theorem Same.cue?_eq (hsame : m.Same m') (task : Running σ) : m'.cue? task = m.cue? task := by
  unfold cue? context
  rw [hsame.now, hsame.gaveUp]

theorem Same.attended_iff (hsame : m.Same m') (task : Running σ) :
    m'.Attended task ↔ m.Attended task :=
  ⟨fun h => ⟨hsame.cue?_eq task ▸ h.uncued, hsame.now ▸ h.rung⟩,
    fun h => ⟨hsame.cue?_eq task ▸ h.uncued, hsame.now ▸ h.rung⟩⟩

/-- Nobody begins to wait for what has happened already. -/
theorem cue?_of_mem_paused {deadline place : Nat} {rung : Bool} {turn : Turn σ ω ε}
    (hsound : ∀ {state pause}, turn.waits = some (state, pause) →
      pause.Sound (m.context deadline rung))
    {task : Running σ} (htask : task ∈ paused ticket deadline rung place turn) :
    m.cue? task = none := by
  obtain ⟨-, rfl, rfl, hwaits⟩ := mem_paused htask
  obtain ⟨hwake, hheeds⟩ := hsound hwaits
  have hasleep : ¬ task.pause.wake.any (· ≤ m.now) = true := by
    rw [Option.any_eq_true_iff_get]
    rintro ⟨hsome, hpast⟩
    have hahead := hwake _ (Option.get_mem hsome)
    exact absurd (of_decide_eq_true hpast) (Nat.not_le_of_lt hahead)
  have hcalm : ¬ (task.pause.heedsCancel &&
      (m.context task.deadline task.rung).cancelled) = true := by
    rw [Bool.and_eq_true]
    rintro ⟨hheeded, hcancelled⟩
    rw [hheeds hheeded] at hcancelled
    cases hcancelled
  rw [cue?, if_neg hasleep, if_neg hcalm]

/-- After a turn of a task, whoever runs has run before and had no turn, or it is the task itself,
which waits for what is still to come. -/
theorem mem_running_of_resume {task : Running σ} {cue : Cue}
    (hother : other ∈ (m.resume b task cue).running) :
    other ∈ m.running ∧ other.ticket ≠ task.ticket ∨
      other.ticket = task.ticket ∧ other.deadline = task.deadline ∧ other.rung = task.rung ∧
        m.cue? other = none := by
  obtain ⟨ownPlace, nextPlace, heq⟩ := m.resume_eq b task cue
  rw [heq, List.mem_append] at hother
  rcases hother with hstill | hagain
  · obtain ⟨hmem, hne⟩ := List.mem_filter.1 hstill
    exact .inl ⟨hmem, by simpa using hne⟩
  · obtain ⟨hticket, hdeadline, hrung, -⟩ := mem_paused hagain
    exact .inr ⟨hticket, hdeadline, hrung, cue?_of_mem_paused b.resume_sound hagain⟩

/-- The look of a worker at its task is nothing to the other tasks. -/
theorem mem_running_of_attend (hother : other ∈ (m.attend b ticket).running)
    (hne : other.ticket ≠ ticket) : other ∈ m.running := by
  unfold attend at hother
  cases hfind : m.running.find? (·.ticket = ticket) with
  | none => rwa [hfind] at hother
  | some task =>
      obtain rfl : task.ticket = ticket := by simpa using List.find?_some hfind
      cases hcue : m.cue? task with
      | none => simpa [hfind, hcue] using hother
      | some cue =>
          simp only [hfind, hcue, Option.map_some, Option.getD_some] at hother
          rcases mem_running_of_resume hother with ⟨hmem, -⟩ | ⟨hsame, -⟩
          · exact hmem
          · exact absurd hsame hne

theorem mem_running_of_watch (hother : other ∈ (m.watch b ticket).running)
    (hne : other.ticket ≠ ticket) : other ∈ m.running := by
  obtain ⟨task, htask, rfl⟩ := List.mem_map.1 (mem_running_of_attend hother hne)
  by_cases hsame : task.ticket = ticket ∧ task.deadline ≤ m.now
  · rw [if_pos hsame] at hne
    exact absurd hsame.1 hne
  · rwa [if_neg hsame]

/-- A worker that has looked at the clock and then at its task has nothing left to see to. -/
theorem Tidy.attended_watch (htidy : m.Tidy) (hother : other ∈ (m.watch b other.ticket).running) :
    m.Attended other := by
  have hrung : ∀ task ∈ (m.ring other.ticket).running, task.ticket = other.ticket →
      task.deadline ≤ m.now → task.rung = true := by
    intro task htask hsame hdeadline
    obtain ⟨before, -, rfl⟩ := List.mem_map.1 htask
    split
    · rfl
    next hearly =>
      rw [if_neg hearly] at hsame hdeadline
      exact absurd ⟨hsame, hdeadline⟩ hearly
  unfold watch attend at hother
  cases hfind : (m.ring other.ticket).running.find? (·.ticket = other.ticket) with
  | none =>
      rw [hfind] at hother
      simpa using List.find?_eq_none.1 hfind other hother
  | some task =>
      have htask := List.mem_of_find?_eq_some hfind
      have hticket : task.ticket = other.ticket := by simpa using List.find?_some hfind
      cases hcue : (m.ring other.ticket).cue? task with
      | none =>
          simp only [hfind, hcue, Option.map_none, Option.getD_none] at hother
          have hnodup := (htidy.ring other.ticket).nodup_running
          obtain rfl := List.inj_on_of_nodup_map hnodup htask hother hticket
          exact ⟨hcue, hrung task htask rfl⟩
      | some cue =>
          simp only [hfind, hcue, Option.map_some, Option.getD_some] at hother
          rcases mem_running_of_resume hother with ⟨-, hne⟩ | ⟨-, hdeadline, hrings, huncued⟩
          · exact absurd hticket.symm hne
          · exact ⟨huncued, fun hpast => hrings ▸ hrung task htask hticket (hdeadline ▸ hpast)⟩

/-- Whoever runs without having been seen to, after a worker has taken up a task, has run before. -/
theorem Tidy.mem_running_of_takeUp (htidy : m.Tidy) {first : Queued τ} {rest : List (Queued τ)}
    (hqueue : m.queue = first :: rest) (hother : other ∈ (m.takeUp b first rest).running)
    (hnot : ¬m.Attended other) : other ∈ m.running := by
  unfold takeUp at hother
  split at hother
  next wreck _ =>
    rwa [running_crash] at hother
  · rw [launch_eq] at hother
    have hlaunched := htidy.firstTurn hqueue (m.ringsFirst first.ticket)
      (b.start first.task (m.context m.deadline (m.ringsFirst first.ticket)) m.world)
    have hsame := m.same_firstTurn rest first.ticket (m.ringsFirst first.ticket)
      (b.start first.task (m.context m.deadline (m.ringsFirst first.ticket)) m.world)
    by_cases hticket : other.ticket = first.ticket
    · rw [← hticket] at hother hlaunched hsame
      exact absurd ((hsame.attended_iff other).1 (hlaunched.attended_watch hother)) hnot
    · have hstill := mem_running_of_watch hother hticket
      obtain ⟨ownPlace, nextPlace, heq⟩ := m.firstTurn_vacate_eq rest first.ticket _ _
      rw [heq, List.mem_append] at hstill
      exact hstill.resolve_right fun hnew => hticket (mem_paused hnew).1

theorem Tidy.mem_running_of_fill (htidy : m.Tidy) (hother : other ∈ (m.fill b).running)
    (hnot : ¬m.Attended other) : other ∈ m.running := by
  fun_induction fill b m with
  | case1 => exact hother
  | case2 m first rest hqueue hidle ih =>
      have hworks := works_takeUp b hqueue hidle
      have hstill := ih (htidy.steps hworks.proceeds.steps) hother
        (mt (hworks.same.attended_iff other).1 hnot)
      exact htidy.mem_running_of_takeUp hqueue hstill hnot
  | case3 => exact hother

theorem Tidy.mem_running_of_follow (htidy : m.Tidy) (hother : other ∈ (m.follow b).running)
    (hnot : ¬m.Attended other) : other ∈ m.running := by
  have hround : ∀ m : Machine τ σ ω ε, m.Tidy → other ∈ (m.enterAll.fill b).running →
      ¬m.Attended other → other ∈ m.running := by
    intro m htidy hother hnot
    have henter : Work b m m.enterAll := .enterAll m
    have hstill := (htidy.work henter).mem_running_of_fill hother
      (mt (henter.same.attended_iff other).1 hnot)
    rwa [enterAll_eq] at hstill
  fun_induction follow b m with
  | case1 m after _ => exact hround m htidy hother hnot
  | case2 m after _ ih =>
      have hworks : Works b m after := .head (.enterAll m) (works_fill b _)
      exact hround m htidy (ih (htidy.steps hworks.proceeds.steps) hother
        (mt (hworks.same.attended_iff other).1 hnot)) hnot

/-- Whoever runs without having been seen to, after the turn of a task, has run before and is not
that task. -/
theorem Tidy.mem_running_of_giveTurn (htidy : m.Tidy)
    (hother : other ∈ (m.giveTurn b (.task ticket)).running) (hnot : ¬m.Attended other) :
    other ∈ m.running ∧ other.ticket ≠ ticket := by
  have hwatch : ∀ before : Machine τ σ ω ε, Works b m before →
      other ∈ (before.watch b ticket).running →
      other ∈ before.running ∧ other.ticket ≠ ticket := by
    intro before hworks hruns
    by_cases hticket : other.ticket = ticket
    · subst hticket
      have hbefore := htidy.steps hworks.proceeds.steps
      exact absurd ((hworks.same.attended_iff other).1 (hbefore.attended_watch hruns)) hnot
    · exact ⟨mem_running_of_watch hruns hticket, hticket⟩
  have hlook : other ∈ (m.look b ticket).running := by
    simp only [giveTurn, refill] at hother
    split at hother
    · exact hother
    · have hworks := works_look b m ticket
      exact (htidy.steps hworks.proceeds.steps).mem_running_of_fill hother
        (mt (hworks.same.attended_iff other).1 hnot)
  unfold look at hlook
  split at hlook
  · obtain ⟨hruns, hne⟩ := hwatch _ (works_attend b m ticket) hlook
    exact ⟨mem_running_of_attend hruns hne, hne⟩
  · exact hwatch m .refl hlook

/-- Whoever has not been seen to is due. -/
theorem mem_dueParties_of_not_attended {task : Running σ} (htask : task ∈ m.running)
    (hnot : ¬m.Attended task) : .task task.ticket ∈ m.dueParties := by
  simp only [dueParties, List.map_append, List.mem_append, List.mem_map, List.mem_mergeSort]
  by_cases halarmed : m.isAlarmed task
  · refine .inl ⟨(task.place, .task task.ticket), ?_, rfl⟩
    simp only [alarmedParties, List.mem_append, List.mem_map]
    exact .inl (.inl ⟨task, List.mem_filter.2 ⟨htask, halarmed⟩, rfl⟩)
  · have hcued : (m.cue? task).isSome = true := by
      by_contra huncued
      refine hnot ⟨by simpa using huncued, fun hpast => ?_⟩
      by_contra hsilent
      exact halarmed (by simp [isAlarmed, Bool.not_eq_true _ ▸ hsilent, hpast])
    exact .inr ⟨(task.place, .task task.ticket),
      List.mem_map.2 ⟨task, List.mem_filter.2 ⟨htask, by simp [hcued, halarmed]⟩, rfl⟩, rfl⟩

/-- After a round in which nobody gives up the contexts, no task waits in vain. -/
theorem Tidy.attended_round (htidy : m.Tidy)
    (hahead : ∀ closing, m.closing = some closing → m.now < closing.limit) :
    ∀ task ∈ (m.round b).running, m.Attended task := by
  have hturns := dueParties_induction b htidy
    (P := fun parties between => between.Tidy ∧ m.Same between ∧
      ∀ task ∈ between.running, ¬m.Attended task → .task task.ticket ∈ parties)
    ⟨htidy, .refl m, fun _ => mem_dueParties_of_not_attended⟩ ?_
  · obtain ⟨hbetween, hsame, hdue⟩ := hturns
    intro task htask
    by_contra hnot
    have hstill := hbetween.mem_running_of_follow htask (mt (hsame.attended_iff task).1 hnot)
    exact List.not_mem_nil (hdue task hstill hnot)
  · rintro party parties between hbetween hawaits ⟨-, hsame, hdue⟩
    refine ⟨hbetween.steps (Awaits.proceeds (b := b) hawaits).steps, ?_⟩
    cases party with
    | task ticket =>
        refine ⟨hsame.trans (same_giveTurn b between (by simp)), fun task htask hnot => ?_⟩
        obtain ⟨hmem, hne⟩ :=
          hbetween.mem_running_of_giveTurn htask (mt (hsame.attended_iff task).1 hnot)
        simpa [hne] using hdue task hmem hnot
    | caller ticket =>
        refine ⟨hsame.trans (same_giveTurn b between (by simp)), fun task htask hnot => ?_⟩
        rw [giveTurn, (between.callerTurn_rest ticket).2.2] at htask
        simpa using hdue task htask hnot
    | closer =>
        obtain ⟨closing, hclosing, hlimit⟩ := hawaits
        rw [hsame.closing] at hclosing
        rw [hsame.now] at hlimit
        exact absurd hlimit (Nat.not_le_of_lt (hahead closing hclosing))

end Attended

/-! ## Settled pools -/

section Settled

variable {m : Machine τ σ ω ε} (htidy : m.Tidy) (b : Behaviour τ σ ω ε)

include htidy

/-- The call that closed the pool has patience left after the first round of an instant. -/
theorem Tidy.patient_round :
    ∀ closing, (m.round b).closing = some closing → (m.round b).now < closing.limit := by
  intro closing hclosing
  rw [now_round]
  exact (htidy.ahead_round hclosing).2

/-- Once a pool has settled, no worker has anything left to see to. -/
theorem Tidy.attended_settle : ∀ task ∈ (m.settle b).running, (m.settle b).Attended task := by
  have hfirst : (m.round b).Tidy := htidy.steps (proceeds_round b htidy).steps
  have hpatient := htidy.patient_round b
  have hconclude : ∀ m : Machine τ σ ω ε, m.conclude.running = m.running ∧
      ∀ task, m.Attended task → m.conclude.Attended task := by
    intro m
    unfold conclude
    split
    · exact ⟨rfl, fun _ hattended => ⟨hattended.uncued, hattended.rung⟩⟩
    · exact ⟨rfl, fun _ hattended => hattended⟩
  obtain ⟨hrunning, hattended⟩ := hconclude ((m.round b).round b)
  intro task htask
  rw [settle, hrunning] at htask
  apply hattended
  have hround := hfirst.attended_round hpatient task htask
  exact ((hfirst.same_round hpatient).attended_iff task).2 hround

/-- Once a pool has settled, nobody waits in vain. -/
theorem Tidy.punctual_settle : (m.settle b).Punctual := by
  have hfirst : (m.round b).Tidy := htidy.steps (proceeds_round b htidy).steps
  have hpatient := htidy.patient_round b
  have hsecond : (m.round b).Same ((m.round b).round b) := hfirst.same_round hpatient
  have hattended := htidy.attended_settle b
  unfold settle conclude at hattended ⊢
  split
  next hover =>
    rw [if_pos hover] at hattended
    exact ⟨nofun, nofun, hattended⟩
  next hwaits =>
    rw [if_neg hwaits] at hattended
    refine ⟨?_, ?_, hattended⟩
    · intro closing hclosing
      rw [hsecond.closing] at hclosing
      rw [hsecond.now]
      exact hpatient closing hclosing
    · intro hclosing
      simpa [hclosing] using hwaits

end Settled

end Upkeep.Pool.Machine
