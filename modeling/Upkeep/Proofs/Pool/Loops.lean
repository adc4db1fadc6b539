/-
# The loops of a worker pool

Settling a pool, releasing tasks and closing it are loops over loops. None of them does anything
but the single steps of a pool, one after the other, so a property of pools that every step
keeps is kept by all of them. Nor do they take a step out of its time: the call that closed the
pool returns once, well if no task is left, and giving up only when its patience has ended.

What has to be shown for this is that the closing call still awaits its turn when it comes: only
that turn ends its wait, and it is due once. The turn of a task or a caller that is gone by then is
none at all.
-/

import Mathlib.Data.List.Nodup
import Upkeep.Proofs.Pool.Step

namespace Upkeep.Pool

/-- Whether it is a started task that is due. -/
def Party.isTask : Party → Bool
  | .task _ => true
  | .caller _ | .closer => false

namespace Machine

variable {τ σ ω ε : Type}

/-! ## Steps at their time -/

/-- A step at its time: some work, or the return of the call that closed the pool. -/
inductive Due (b : Behaviour τ σ ω ε) : Machine τ σ ω ε → Machine τ σ ω ε → Prop
  | work {m m' : Machine τ σ ω ε} (hwork : Work b m m') : Due b m m'
  | finishClosing {m : Machine τ σ ω ε} (hclosing : m.closing.isSome = true)
      (hdrained : m.isDrained = true) : Due b m m.finishClosing
  | giveUp {m : Machine τ σ ω ε} {closing : Closing} (hclosing : m.closing = some closing)
      (hlimit : closing.limit ≤ m.now) (hdrained : m.isDrained = false) : Due b m m.giveUp

/-- Any number of steps at their time. -/
abbrev Proceeds (b : Behaviour τ σ ω ε) : Machine τ σ ω ε → Machine τ σ ω ε → Prop :=
  Relation.ReflTransGen (Due b)

theorem Due.step {b : Behaviour τ σ ω ε} {m m' : Machine τ σ ω ε} (hdue : Due b m m') :
    Step b m m' := by
  cases hdue with
  | work hwork => exact .work hwork
  | finishClosing _ hdrained => exact .finishClosing hdrained
  | giveUp => exact .giveUp m

theorem Proceeds.steps {b : Behaviour τ σ ω ε} {m m' : Machine τ σ ω ε}
    (hproceeds : Proceeds b m m') : Steps b m m' :=
  hproceeds.lift id fun _ _ => Due.step

theorem Works.proceeds {b : Behaviour τ σ ω ε} {m m' : Machine τ σ ω ε}
    (hworks : Works b m m') : Proceeds b m m' :=
  hworks.lift id fun _ _ => .work

/-- Neither the clock has moved, nor has anything happened that has to do with the closing of the
pool. -/
structure Same (m m' : Machine τ σ ω ε) : Prop where
  now : m'.now = m.now
  isOpen : m'.isOpen = m.isOpen
  gaveUp : m'.gaveUp = m.gaveUp
  closing : m'.closing = m.closing

theorem Same.refl (m : Machine τ σ ω ε) : m.Same m :=
  ⟨rfl, rfl, rfl, rfl⟩

theorem Same.trans {m between m' : Machine τ σ ω ε} (hfirst : m.Same between)
    (hthen : between.Same m') : m.Same m' where
  now := hthen.now.trans hfirst.now
  isOpen := hthen.isOpen.trans hfirst.isOpen
  gaveUp := hthen.gaveUp.trans hfirst.gaveUp
  closing := hthen.closing.trans hfirst.closing

/-- A first turn is nothing to the closing of the pool. -/
theorem same_firstTurn (m : Machine τ σ ω ε) (rest : List (Queued τ)) (ticket : Nat)
    (rung : Bool) (turn : Turn σ ω ε) : m.Same ((m.vacate rest).firstTurn ticket rung turn) := by
  obtain ⟨ownPlace, nextPlace, heq⟩ := m.firstTurn_vacate_eq rest ticket rung turn
  rw [heq]
  exact ⟨rfl, rfl, rfl, rfl⟩

theorem same_desert (m : Machine τ σ ω ε) : m.Same m.desert := by
  rw [desert_eq]
  exact ⟨rfl, rfl, rfl, rfl⟩

/-- Work is nothing to the closing of the pool. -/
theorem Work.same {b : Behaviour τ σ ω ε} {m m' : Machine τ σ ω ε} (hwork : Work b m m') :
    m.Same m' := by
  cases hwork with
  | @launch first rest => exact m.same_firstTurn rest first.ticket _ _
  | @crash first rest wreck =>
      have hwrecked := m.same_firstTurn rest first.ticket false wreck.turn
      exact crash_induction (P := m.Same) { hwrecked with }
        fun _ hsame => hsame.trans (same_desert _)
  | @resume task cue =>
      obtain ⟨ownPlace, nextPlace, heq⟩ := m.resume_eq b task cue
      rw [heq]
      exact ⟨rfl, rfl, rfl, rfl⟩
  | ring => exact ⟨rfl, rfl, rfl, rfl⟩
  | enterAll =>
      rw [enterAll_eq]
      exact ⟨rfl, rfl, rfl, rfl⟩
  | callerTurn hcaller =>
      obtain ⟨_, -, -, heq⟩ | ⟨-, heq⟩ := callerTurn_cases hcaller
      · rw [heq]
        exact ⟨rfl, rfl, rfl, rfl⟩
      · rw [heq]
        exact ⟨rfl, rfl, rfl, rfl⟩

theorem Works.same {b : Behaviour τ σ ω ε} {m m' : Machine τ σ ω ε} (hworks : Works b m m') :
    m.Same m' := by
  induction hworks with
  | refl => exact .refl m
  | tail _ hwork ih => exact ih.trans hwork.same

/-! ## Filling and following -/

section Workers

variable (b : Behaviour τ σ ω ε) (m : Machine τ σ ω ε)

/-- What a worker sees when it looks at its task is work, if anything. -/
theorem works_attend (ticket : Nat) : Works b m (m.attend b ticket) := by
  unfold attend
  cases hfind : m.running.find? (·.ticket = ticket) with
  | none => exact .refl
  | some task =>
      cases hcue : m.cue? task with
      | none => simpa [hcue] using Relation.ReflTransGen.refl
      | some cue =>
          have hmem := List.mem_of_find?_eq_some hfind
          simpa [hcue] using Relation.ReflTransGen.single (Work.resume hmem (.inl hcue))

theorem works_watch (ticket : Nat) : Works b m (m.watch b ticket) :=
  .head (.ring m ticket) (works_attend b _ ticket)

theorem works_look (ticket : Nat) : Works b m (m.look b ticket) := by
  unfold look
  split
  · exact (works_attend b m ticket).trans (works_watch b _ ticket)
  · exact works_watch b m ticket

/-- A worker that takes up a task runs it or is lost with it. -/
theorem works_takeUp {m : Machine τ σ ω ε} {first : Queued τ} {rest : List (Queued τ)}
    (hqueue : m.queue = first :: rest) (hidle : m.hasIdleWorker = true) :
    Works b m (m.takeUp b first rest) := by
  unfold takeUp
  split
  next wreck hcall => exact .single (.crash hqueue hidle hcall)
  next hcall => exact .head (.launch hqueue hidle hcall) (works_watch b _ first.ticket)

theorem works_fill : Works b m (m.fill b) := by
  fun_induction fill b m with
  | case1 => exact .refl
  | case2 m first rest hqueue hidle ih => exact (works_takeUp b hqueue hidle).trans ih
  | case3 => exact .refl

theorem works_refill (after : Machine τ σ ω ε) : Works b after (m.refill b after) := by
  unfold refill
  split
  · exact .refl
  · exact works_fill b after

theorem works_follow : Works b m (m.follow b) := by
  fun_induction follow b m with
  | case1 m after _ => exact .head (.enterAll m) (works_fill b _)
  | case2 m after _ ih => exact .head (.enterAll m) ((works_fill b _).trans ih)

/-- The turn of the started task with a ticket is work, if anything. -/
theorem works_giveTurn_task (ticket : Nat) : Works b m (m.giveTurn b (.task ticket)) :=
  (works_look b m ticket).trans (works_refill b m _)

/-- So is the turn of a caller. -/
theorem works_callerTurn (ticket : Nat) : Works b m (m.callerTurn ticket) := by
  by_cases hthere : ∃ caller ∈ m.admitted ++ m.waiting, caller.ticket = ticket
  · obtain ⟨caller, hcaller, rfl⟩ := hthere
    exact .single (.callerTurn hcaller)
  · rw [callerTurn_of_gone fun caller hcaller hsame => hthere ⟨caller, hcaller, hsame⟩]

end Workers

theorem works_taskTurn (b : Behaviour τ σ ω ε) {m : Machine τ σ ω ε} {task : Running σ}
    {cue : Cue} (htask : task ∈ m.running) (hcue : m.Heeds task cue) :
    Works b m (m.taskTurn b task cue) :=
  .head (.resume htask hcue) (works_refill b m _)

/-! ## Turns of all who are due -/

/-- Someone still awaits the turn that is due. The turn of a task or a caller that is gone is none
at all. -/
def Awaits (m : Machine τ σ ω ε) : Party → Prop
  | .task _ | .caller _ => True
  | .closer => ∃ closing, m.closing = some closing ∧ closing.limit ≤ m.now

/-- Giving a turn to someone who awaits it is a sequence of steps. -/
theorem Awaits.proceeds {b : Behaviour τ σ ω ε} {m : Machine τ σ ω ε} {party : Party}
    (hawaits : m.Awaits party) : Proceeds b m (m.giveTurn b party) := by
  cases party with
  | task ticket => exact (works_giveTurn_task b m ticket).proceeds
  | caller ticket => exact (works_callerTurn b m ticket).proceeds
  | closer =>
      obtain ⟨closing, hclosing, hlimit⟩ := hawaits
      simp only [giveTurn]
      split
      next hdrained => exact .single (.finishClosing (by simp [hclosing]) hdrained)
      next hdrained => exact .single (.giveUp hclosing hlimit (by simpa using hdrained))

/-- Only the turn of the call that closed the pool has to do with the closing. -/
theorem same_giveTurn (b : Behaviour τ σ ω ε) (m : Machine τ σ ω ε) {party : Party}
    (hother : party ≠ .closer) : m.Same (m.giveTurn b party) := by
  cases party with
  | task ticket => exact (works_giveTurn_task b m ticket).same
  | caller ticket => exact (works_callerTurn b m ticket).same
  | closer => exact absurd rfl hother

/-- A turn of someone else takes nobody's turn away. -/
theorem Awaits.giveTurn {b : Behaviour τ σ ω ε} {m : Machine τ σ ω ε} {party other : Party}
    (hawaits : m.Awaits party) (hother : other ≠ party) : (m.giveTurn b other).Awaits party := by
  cases party with
  | task | caller => exact trivial
  | closer =>
      have hsame := same_giveTurn b m hother
      rw [Awaits, hsame.closing, hsame.now]
      exact hawaits

/-- Apart from tasks, those who are due are callers and the call that closed the pool. -/
theorem others_dueParties (m : Machine τ σ ω ε) :
    (m.dueParties.filter (!Party.isTask ·)).Perm
      (((m.waiting.filter fun caller => caller.expiry ≤ m.now).map (.caller ·.ticket)) ++
        ((m.closing.toList.filter fun closing => closing.limit ≤ m.now).map fun _ => .closer)) := by
  unfold dueParties
  rw [List.map_append, List.filter_append]
  have halarmed := ((m.alarmedParties.mergeSort_perm fun x y => x.1 ≤ y.1).map (·.2)).filter
    (!Party.isTask ·)
  have hcancelled := ((m.cancelledParties.mergeSort_perm fun x y => y.1 ≤ x.1).map (·.2)).filter
    (!Party.isTask ·)
  refine (halarmed.append hcancelled).trans (.of_eq ?_)
  simp [alarmedParties, cancelledParties, List.filter_map, Function.comp_def, Party.isTask]

theorem mem_dueParties {m : Machine τ σ ω ε} {party : Party} (hdue : party ∈ m.dueParties)
    (hother : party.isTask = false) :
    (∃ caller ∈ m.waiting, party = .caller caller.ticket) ∨
      party = .closer ∧ ∃ closing, m.closing = some closing ∧ closing.limit ≤ m.now := by
  have hmem := m.others_dueParties.subset (List.mem_filter.2 ⟨hdue, by simpa using hother⟩)
  rcases List.mem_append.1 hmem with hcaller | hcloser
  · obtain ⟨caller, hwaits, rfl⟩ := List.mem_map.1 hcaller
    exact .inl ⟨caller, List.mem_of_mem_filter hwaits, rfl⟩
  · obtain ⟨closing, hlimit, rfl⟩ := List.mem_map.1 hcloser
    rw [List.mem_filter, Option.mem_toList] at hlimit
    exact .inr ⟨rfl, closing, hlimit.1, of_decide_eq_true hlimit.2⟩

theorem closer_mem_dueParties {m : Machine τ σ ω ε} {closing : Closing}
    (hclosing : m.closing = some closing) (hlimit : closing.limit ≤ m.now) :
    .closer ∈ m.dueParties := by
  apply List.mem_of_mem_filter (p := (!Party.isTask ·))
  apply m.others_dueParties.mem_iff.2
  apply List.mem_append_right
  simp [hclosing, hlimit]

theorem awaits_dueParties {m : Machine τ σ ω ε} {party : Party} (hdue : party ∈ m.dueParties) :
    m.Awaits party := by
  by_cases htask : party.isTask
  · cases party with
    | task ticket => exact trivial
    | caller | closer => cases htask
  · rcases mem_dueParties hdue (by simpa using htask) with ⟨caller, -, rfl⟩ | ⟨rfl, hcloser⟩
    · exact trivial
    · exact hcloser

theorem Tidy.nodup_waiting {m : Machine τ σ ω ε} (htidy : m.Tidy) :
    (m.waiting.map (·.ticket)).Nodup := by
  have hfront : m.frontTickets.Nodup := (List.nodup_append.1 htidy.nodup).2.1
  have hcallers : m.callerTickets.Nodup := (List.nodup_append.1 hfront).2.1
  rw [callerTickets, List.map_append] at hcallers
  exact (List.nodup_append.1 hcallers).2.1

/-- Whoever can be removed by a turn is due once. -/
theorem Tidy.nodup_dueParties {m : Machine τ σ ω ε} (htidy : m.Tidy) :
    (m.dueParties.filter (!Party.isTask ·)).Nodup := by
  rw [m.others_dueParties.nodup_iff, List.nodup_append]
  refine ⟨?_, ?_, ?_⟩
  · have hdue := htidy.nodup_waiting.sublist
      ((List.filter_sublist (p := fun caller => decide (caller.expiry ≤ m.now))).map _)
    rw [← List.nodup_map_iff (f := Party.caller) fun _ _ => Party.caller.inj, List.map_map] at hdue
    exact hdue
  · apply List.Nodup.map_on
    · intro closing hclosing other hother _
      rw [List.mem_filter, Option.mem_toList] at hclosing hother
      exact Option.mem_unique hclosing.1 hother.1
    · exact (Option.toList_nodup _).filter _
  · intro party hcaller other hcloser hsame
    obtain ⟨_, -, rfl⟩ := List.mem_map.1 hcaller
    obtain ⟨_, -, rfl⟩ := List.mem_map.1 hcloser
    cases hsame

/-- What holds before all who are due get their turns, and is kept by each turn that is awaited,
holds after them. It may speak of those whose turns are still to come. -/
theorem dueParties_induction (b : Behaviour τ σ ω ε) {m : Machine τ σ ω ε} (htidy : m.Tidy)
    {P : List Party → Machine τ σ ω ε → Prop} (h : P m.dueParties m)
    (hturn : ∀ {party parties between}, between.Tidy → between.Awaits party →
      P (party :: parties) between → P parties (between.giveTurn b party)) :
    P [] (m.dueParties.foldl (giveTurn b) m) := by
  suffices hall : ∀ (parties : List Party) (between : Machine τ σ ω ε), between.Tidy →
      (∀ party ∈ parties, between.Awaits party) → (parties.filter (!Party.isTask ·)).Nodup →
      P parties between → P [] (parties.foldl (giveTurn b) between) from
    hall _ _ htidy (fun _ => awaits_dueParties) htidy.nodup_dueParties h
  intro parties
  induction parties with
  | nil => exact fun _ _ _ _ hdone => hdone
  | cons party parties ih =>
      intro between hbetween hawait hnodup hnow
      have hfirst := hawait party List.mem_cons_self
      refine ih _ (hbetween.steps (Awaits.proceeds (b := b) hfirst).steps) ?_ ?_
        (hturn hbetween hfirst hnow)
      · intro other hother
        have hlater := hawait other (List.mem_cons_of_mem _ hother)
        by_cases htask : other.isTask
        · cases other with
          | task ticket => exact trivial
          | caller | closer => cases htask
        · apply hlater.giveTurn
          rintro rfl
          have hagain : party ∈ parties.filter (!Party.isTask ·) :=
            List.mem_filter.2 ⟨hother, by simpa using htask⟩
          rw [List.filter_cons_of_pos (by simpa using htask), List.nodup_cons] at hnodup
          exact hnodup.1 hagain
      · exact hnodup.sublist ((List.sublist_cons_self party parties).filter _)

theorem proceeds_round (b : Behaviour τ σ ω ε) {m : Machine τ σ ω ε} (htidy : m.Tidy) :
    Proceeds b m (m.round b) := by
  have hturns : Proceeds b m (m.dueParties.foldl (giveTurn b) m) := by
    apply dueParties_induction b htidy (P := fun _ => Proceeds b m) .refl
    intro _ _ _ _ hawaits hso
    exact hso.trans hawaits.proceeds
  exact hturns.trans (works_follow b _).proceeds

/-- Settling a pool is a sequence of steps at their time. -/
theorem proceeds_settle (b : Behaviour τ σ ω ε) {m : Machine τ σ ω ε} (htidy : m.Tidy) :
    Proceeds b m (m.settle b) := by
  have hfirst := proceeds_round b htidy
  have hsecond := proceeds_round b (htidy.steps hfirst.steps)
  refine (hfirst.trans hsecond).trans ?_
  show Proceeds b _ ((m.round b).round b).conclude
  unfold conclude
  split
  next hclosing =>
    rw [Bool.and_eq_true] at hclosing
    exact .single (.finishClosing hclosing.1 hclosing.2)
  · exact .refl

theorem steps_settle (b : Behaviour τ σ ω ε) {m : Machine τ σ ω ε} (htidy : m.Tidy) :
    Steps b m (m.settle b) :=
  (proceeds_settle b htidy).steps

/-! ## Releasing -/

section Others

variable {b : Behaviour τ σ ω ε} {m : Machine τ σ ω ε} {other : Running σ}

/-- The turn of a task leaves the other tasks. -/
theorem mem_running_resume (hother : other ∈ m.running) {task : Running σ}
    (hne : other.ticket ≠ task.ticket) (cue : Cue) : other ∈ (m.resume b task cue).running := by
  obtain ⟨ownPlace, nextPlace, heq⟩ := m.resume_eq b task cue
  rw [heq]
  exact List.mem_append_left _ (List.mem_filter.2 ⟨hother, by simpa using hne⟩)

theorem mem_running_attend (hother : other ∈ m.running) {ticket : Nat}
    (hne : other.ticket ≠ ticket) : other ∈ (m.attend b ticket).running := by
  unfold attend
  cases hfind : m.running.find? (·.ticket = ticket) with
  | none => exact hother
  | some task =>
      obtain rfl : task.ticket = ticket := by simpa using List.find?_some hfind
      cases hcue : m.cue? task with
      | none => simpa [hcue] using hother
      | some cue => simpa [hcue] using mem_running_resume hother hne cue

/-- The alarm of a task leaves the other tasks as they are. -/
theorem mem_running_ring (hother : other ∈ m.running) {ticket : Nat}
    (hne : other.ticket ≠ ticket) : other ∈ (m.ring ticket).running :=
  List.mem_map.2 ⟨other, hother, if_neg fun h => hne h.1⟩

theorem mem_running_watch (hother : other ∈ m.running) {ticket : Nat}
    (hne : other.ticket ≠ ticket) : other ∈ (m.watch b ticket).running :=
  mem_running_attend (mem_running_ring hother hne) hne

/-- Starting further tasks leaves those that run already. -/
theorem Tidy.mem_running_takeUp (htidy : m.Tidy) {first : Queued τ} {rest : List (Queued τ)}
    (hqueue : m.queue = first :: rest) (hother : other ∈ m.running) :
    other ∈ (m.takeUp b first rest).running := by
  have hne : other.ticket ≠ first.ticket :=
    (List.nodup_append.1 htidy.nodup).2.2 _ (htidy.running_started other hother) _
      (by simp [frontTickets, hqueue])
  have hfirst : ∀ rung turn,
      other ∈ ((m.vacate rest).firstTurn first.ticket rung turn).running := by
    intro rung turn
    obtain ⟨ownPlace, nextPlace, heq⟩ := m.firstTurn_vacate_eq rest first.ticket rung turn
    rw [heq]
    exact List.mem_append_left _ hother
  unfold takeUp
  split
  next wreck _ =>
    refine crash_induction (P := fun after => other ∈ after.running) (hfirst _ _) fun _ hstill => ?_
    rwa [desert_eq]
  · exact mem_running_watch (hfirst _ _) hne

theorem Tidy.mem_running_fill (htidy : m.Tidy) (hother : other ∈ m.running) :
    other ∈ (m.fill b).running := by
  fun_induction fill b m with
  | case1 => exact hother
  | case2 m first rest hqueue hidle ih =>
      have htaken := htidy.steps (works_takeUp b hqueue hidle).proceeds.steps
      exact ih htaken (htidy.mem_running_takeUp hqueue hother)
  | case3 => exact hother

theorem Tidy.mem_running_taskTurn (htidy : m.Tidy) {task : Running σ} (htask : task ∈ m.running)
    {cue : Cue} (hcue : m.Heeds task cue) (hother : other ∈ m.running)
    (hne : other.ticket ≠ task.ticket) : other ∈ (m.taskTurn b task cue).running := by
  have hturn := mem_running_resume (b := b) hother hne cue
  unfold taskTurn refill
  split
  · exact hturn
  · exact (htidy.step (.work (.resume htask hcue))).mem_running_fill hturn

end Others

theorem Tidy.foldl_taskTurn_induction {b : Behaviour τ σ ω ε} {P : Machine τ σ ω ε → Prop}
    (hturn : ∀ {between : Machine τ σ ω ε} {task}, between.Tidy → task ∈ between.running →
      task.pause.heedsRelease = true → P between → P (between.taskTurn b task .release))
    {tasks : List (Running σ)} {m : Machine τ σ ω ε} (htidy : m.Tidy)
    (hrunning : ∀ task ∈ tasks, task ∈ m.running ∧ task.pause.heedsRelease = true)
    (hnodup : (tasks.map (·.ticket)).Nodup) (h : P m) :
    P (tasks.foldl (fun m task => m.taskTurn b task .release) m) := by
  induction tasks generalizing m with
  | nil => exact h
  | cons task tasks ih =>
      rw [List.map_cons, List.nodup_cons] at hnodup
      obtain ⟨hmem, hheeds⟩ := hrunning task List.mem_cons_self
      have hworks := works_taskTurn b hmem (.inr ⟨rfl, hheeds⟩)
      refine ih (htidy.steps hworks.proceeds.steps) ?_ hnodup.2 (hturn htidy hmem hheeds h)
      intro other hother
      obtain ⟨hstill, hreleased⟩ := hrunning other (List.mem_cons_of_mem _ hother)
      refine ⟨htidy.mem_running_taskTurn hmem (.inr ⟨rfl, hheeds⟩) hstill (fun heq => ?_),
        hreleased⟩
      exact hnodup.1 (heq ▸ List.mem_map_of_mem hother)

/-- What holds before some tasks are released, and is kept by the turn of each of them, holds
before the pool settles. -/
theorem Tidy.released_induction {b : Behaviour τ σ ω ε} {m : Machine τ σ ω ε} (htidy : m.Tidy)
    (chosen : σ → Bool) {P : Machine τ σ ω ε → Prop} (h : P m)
    (hturn : ∀ {between : Machine τ σ ω ε} {task}, between.Tidy → task ∈ between.running →
      task.pause.heedsRelease = true → P between → P (between.taskTurn b task .release)) :
    P ((m.running.filter fun task => task.pause.heedsRelease && chosen task.state).foldl
      (fun m task => m.taskTurn b task .release) m) := by
  refine Tidy.foldl_taskTurn_induction hturn htidy ?_
    (htidy.nodup_running.sublist (List.filter_sublist.map _)) h
  intro task htask
  obtain ⟨hmem, hchosen⟩ := List.mem_filter.1 htask
  rw [Bool.and_eq_true] at hchosen
  exact ⟨hmem, hchosen.1⟩

/-- Before the pool settles, the released tasks have their turns. -/
theorem works_released (b : Behaviour τ σ ω ε) {m : Machine τ σ ω ε} (htidy : m.Tidy)
    (chosen : σ → Bool) :
    Works b m ((m.running.filter fun task => task.pause.heedsRelease && chosen task.state).foldl
      (fun m task => m.taskTurn b task .release) m) :=
  htidy.released_induction chosen .refl fun _ htask hheeds hworks =>
    hworks.trans (works_taskTurn b htask (.inr ⟨rfl, hheeds⟩))

theorem steps_release (b : Behaviour τ σ ω ε) {m : Machine τ σ ω ε} (htidy : m.Tidy)
    (chosen : σ → Bool) : Steps b m (m.release b chosen) := by
  have hturns := (works_released b htidy chosen).proceeds.steps
  exact hturns.trans (steps_settle b (htidy.steps hturns))

/-! ## Arriving and closing -/

theorem Steps.changes {b : Behaviour τ σ ω ε} {m m' : Machine τ σ ω ε}
    (hsteps : Steps b m m') : Changes b m m' :=
  hsteps.lift id fun _ _ => .step

theorem changes_arrive (b : Behaviour τ σ ω ε) {m : Machine τ σ ω ε} (htidy : m.Tidy)
    (instant : Nat) : Changes b m (m.arrive b instant) :=
  .head (.clock m instant)
    (steps_settle b (htidy.change (b := b) (.clock m instant))).changes

/-- The pool that takes no more tasks, and a call that has begun to wait for those it has. -/
def awaiting (m : Machine τ σ ω ε) (patience : Nat) (inFront : Bool) : Machine τ σ ω ε :=
  { m.shut with
    closing := some ⟨m.now + patience, m.placeOf inFront⟩
    nextPlace := m.nextPlace + 1 }

theorem close_eq (b : Behaviour τ σ ω ε) (m : Machine τ σ ω ε) (patience : Nat)
    (inFront : Bool) :
    m.close b patience inFront =
      if m.isOpen then
        settle b (if patience = 0 ∧ m.isDeserted = false then m.shut.giveUp
          else m.awaiting patience inFront)
      else m.note (.closed (.ok ())) :=
  rfl

/-- Closing a pool takes no time. -/
theorem now_close (b : Behaviour τ σ ω ε) (m : Machine τ σ ω ε) (patience : Nat)
    (inFront : Bool) : (m.close b patience inFront).now = m.now := by
  have hshut : m.shut.now = m.now := by simp [shut_eq, noteAll]
  rw [close_eq]
  split
  · rw [now_settle]
    split <;> exact hshut
  · rfl

/-- Closing a pool is a sequence of changes. -/
theorem changes_close (b : Behaviour τ σ ω ε) {m : Machine τ σ ω ε} (htidy : m.Tidy)
    (patience : Nat) (inFront : Bool) : Changes b m (m.close b patience inFront) := by
  rw [close_eq]
  split
  · have hshut : m.shut.Tidy := htidy.change (b := b) (.shut m)
    refine .head (.shut m) ?_
    split
    · have hgaveUp := Change.step (b := b) (.giveUp m.shut)
      exact .head hgaveUp (steps_settle b (hshut.change hgaveUp)).changes
    · have hawait : Change b m.shut (m.awaiting patience inFront) := .await ..
      exact .head hawait (steps_settle b (hshut.change hawait)).changes
  · exact .single (.closed m)

end Machine

end Upkeep.Pool
