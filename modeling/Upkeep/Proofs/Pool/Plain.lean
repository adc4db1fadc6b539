/-
# Plain moves

Most of what happens in a pool has nothing to do with the call that closes it. `Plain` says what
all these moves have in common, as far as that call is concerned: they write down what tasks have
seen and said, a pool runs empty only because a task has ended, and once the pool is closed no
task is accepted any more. So who reasons about the closing need not know what else can happen in
a pool.
-/

import Mathlib.Order.Bounds.Basic
import Upkeep.Proofs.Pool.Course

namespace Upkeep.Pool

variable {τ σ ω ε : Type}

/-! ## Reading the log -/

/-- The context that a task had been given when it started or spoke. -/
def Event.context? : Event ε → Option Context
  | .started _ context => some context
  | .said _ context _ => some context
  | .accepted _ | .refused _ _ | .ended _ | .closed _ => none

/-- What a call to close the pool has returned. -/
def Event.result? : Event ε → Option (Except PoolError Unit)
  | .closed result => some result
  | .accepted _ | .refused _ _ | .started _ _ | .said _ _ _ | .ended _ => none

/-- When calls to close the pool have returned, and with which results. -/
def returns (entries : List (Entry ε)) : List (Nat × Except PoolError Unit) :=
  entries.filterMap fun entry => entry.event.result?.map fun result => (entry.instant, result)

/-- The instants at which tasks have ended. -/
def ends (entries : List (Entry ε)) : Set Nat :=
  {instant | ∃ ticket, ⟨instant, .ended ticket⟩ ∈ entries}

/-- Contexts are cancelled by their deadlines alone. -/
def ByDeadline (entries : List (Entry ε)) : Prop :=
  ∀ entry ∈ entries, ∀ context, entry.event.context? = some context →
    RungBy context.cancelled context.deadline context.now

/-- All contexts are cancelled. -/
def AllCancelled (entries : List (Entry ε)) : Prop :=
  ∀ entry ∈ entries, ∀ context, entry.event.context? = some context → context.cancelled = true

theorem returns_append (entries others : List (Entry ε)) :
    returns (entries ++ others) = returns entries ++ returns others :=
  List.filterMap_append

theorem returns_eq_nil {entries : List (Entry ε)}
    (hnone : ∀ entry ∈ entries, entry.event.result? = none) : returns entries = [] := by
  rw [returns, List.filterMap_eq_nil_iff]
  intro entry hentry
  rw [hnone entry hentry, Option.map_none]

theorem ByDeadline.append {entries others : List (Entry ε)} (hentries : ByDeadline entries)
    (hothers : ByDeadline others) : ByDeadline (entries ++ others) := by
  intro entry hentry
  exact (List.mem_append.1 hentry).elim (hentries entry) (hothers entry)

theorem AllCancelled.append {entries others : List (Entry ε)} (hentries : AllCancelled entries)
    (hothers : AllCancelled others) : AllCancelled (entries ++ others) := by
  intro entry hentry
  exact (List.mem_append.1 hentry).elim (hentries entry) (hothers entry)

namespace Machine

/-! ## What has nothing to do with the closing -/

/-- The pool takes no more tasks, and nobody waits for room. -/
structure Shut (m : Machine τ σ ω ε) : Prop where
  isOpen : m.isOpen = false
  admitted : m.admitted = []
  waiting : m.waiting = []

/-- An entry of this moment that does not tell of the return of a closing call. -/
structure Writes (m : Machine τ σ ω ε) (entry : Entry ε) : Prop where
  instant : entry.instant = m.now
  result : entry.event.result? = none
  context : ∀ context, entry.event.context? = some context →
    ∃ rung, context = m.context context.deadline rung ∧
      (m.Timely → RungBy rung context.deadline m.now)

/-- A move that has nothing to do with the closing of the pool, except that tasks may end by it,
and that a closed pool accepts none. -/
structure Plain (m m' : Machine τ σ ω ε) : Prop extends Same m m' where
  told : ∃ entries, m'.log = m.log ++ entries ∧ ∀ entry ∈ entries, m.Writes entry
  /-- Only the end of a task makes the pool run empty. -/
  drained : m'.isDrained = true → m.isDrained = true ∨ ∃ ticket, ⟨m.now, .ended ticket⟩ ∈ m'.log
  shut : m.Shut → m'.Shut ∧ m'.accepted = m.accepted
  /-- In an empty pool that is closed no task ends. -/
  idle : m.Shut → m.isDrained = true → m'.isDrained = true ∧ ends m'.log = ends m.log

section Plain

variable {b : Behaviour τ σ ω ε} {m m' : Machine τ σ ω ε}

theorem isDrained_iff : m.isDrained = true ↔ m.queue = [] ∧ m.running = [] := by
  simp [isDrained]

/-- The log of a turn is plain, and tells of the end of a task that does not wait on. -/
theorem writes_turnEvents {ticket deadline : Nat} {rung : Bool} {turn : Turn σ ω ε}
    (hrung : m.Timely → RungBy rung deadline m.now) {event : Event ε}
    (hevent : event ∈ m.turnEvents ticket deadline rung turn) : m.Writes ⟨m.now, event⟩ := by
  rcases List.mem_append.1 hevent with hsaid | hended
  · obtain ⟨word, -, rfl⟩ := List.mem_map.1 hsaid
    exact ⟨rfl, rfl, fun _ hcontext => Option.some.inj hcontext ▸ ⟨rung, rfl, hrung⟩⟩
  · split at hended
    · rw [List.mem_singleton.1 hended]
      exact ⟨rfl, rfl, nofun⟩
    · cases hended

theorem ended_of_paused_eq_nil {ticket deadline place : Nat} {rung : Bool} {turn : Turn σ ω ε}
    (hover : paused ticket deadline rung place turn = []) :
    .ended ticket ∈ m.turnEvents ticket deadline rung turn := by
  have hnone : turn.waits = none := by simpa [paused] using hover
  rw [turnEvents, hnone]
  exact List.mem_append_right _ List.mem_cons_self

theorem accepted_of_log_eq {events : List (Event ε)}
    (hlog : m'.log = m.log ++ events.map fun event => ⟨m.now, event⟩) :
    m'.accepted = m.accepted ++ events.filterMap Event.accepted? := by
  rw [accepted, hlog, List.filterMap_append, List.filterMap_map]
  rfl

theorem not_isDrained_of_queue {first : Queued τ} {rest : List (Queued τ)}
    (hqueue : m.queue = first :: rest) : m.isDrained ≠ true := by
  simp [isDrained, hqueue]

/-- The first turn of a task is plain, if its worker looks at the clock in time. -/
theorem plain_firstTurn {first : Queued τ} {rest : List (Queued τ)}
    (hqueue : m.queue = first :: rest) {rung : Bool} (hrung : RungBy rung m.deadline m.now)
    (turn : Turn σ ω ε) : m.Plain ((m.vacate rest).firstTurn first.ticket rung turn) := by
  have hnobody : m.Shut → (m.vacate rest).admitted = [] ∧ (m.vacate rest).waiting = [] := by
    intro hshut
    have hcallers := (admitNext_queue { m with queue := rest }).2
    rw [← List.append_eq_nil_iff]
    refine hcallers.trans ?_
    simp [hshut.admitted, hshut.waiting]
  obtain ⟨ownPlace, nextPlace, heq⟩ := m.firstTurn_vacate_eq rest first.ticket rung turn
  rw [heq]
  refine ⟨⟨rfl, rfl, rfl, rfl⟩, ⟨_, rfl, ?_⟩, ?_, ?_,
    fun _ hdrained => absurd hdrained (not_isDrained_of_queue hqueue)⟩
  · intro entry hentry
    obtain ⟨event, hevent, rfl⟩ := List.mem_map.1 hentry
    rcases List.mem_cons.1 hevent with rfl | hturn
    · exact ⟨rfl, rfl, fun _ hcontext => Option.some.inj hcontext ▸ ⟨rung, rfl, fun _ => hrung⟩⟩
    · exact writes_turnEvents (fun _ => hrung) hturn
  · intro hdrained
    have hover := (List.append_eq_nil_iff.1 (isDrained_iff.1 hdrained).2).2
    refine .inr ⟨first.ticket, List.mem_append_right _ (List.mem_map_of_mem ?_)⟩
    exact List.mem_cons_of_mem _ (ended_of_paused_eq_nil hover)
  · intro hshut
    refine ⟨⟨hshut.isOpen, (hnobody hshut).1, (hnobody hshut).2⟩, ?_⟩
    rw [accepted_of_log_eq rfl, List.filterMap_cons_none rfl, (filterMap_turnEvents ..).1,
      List.append_nil]

/-- That the queue goes with the last worker is plain too, since that worker's task is over. -/
theorem Plain.desert (hplain : m.Plain m') (hbusy : m.isDrained ≠ true) {ticket : Nat}
    (hended : ⟨m.now, .ended ticket⟩ ∈ m'.log) : m.Plain m'.desert := by
  obtain ⟨entries, hlog, hwrites⟩ := hplain.told
  rw [desert_eq]
  refine ⟨hplain.toSame.trans ⟨rfl, rfl, rfl, rfl⟩, ?_,
    fun _ => .inr ⟨ticket, List.mem_append_left _ hended⟩, ?_,
    fun _ hdrained => absurd hdrained hbusy⟩
  · refine ⟨entries ++ _, by rw [← List.append_assoc, ← hlog]; rfl, fun entry hentry => ?_⟩
    rcases List.mem_append.1 hentry with hbefore | hrefused
    · exact hwrites entry hbefore
    · obtain ⟨event, hevent, rfl⟩ := List.mem_map.1 hrefused
      obtain ⟨caller, -, rfl⟩ := List.mem_map.1 hevent
      exact ⟨hplain.now, rfl, nofun⟩
  · intro hshut
    obtain ⟨hstill, haccepted⟩ := hplain.shut hshut
    refine ⟨⟨hstill.isOpen, rfl, rfl⟩, ?_⟩
    rw [← haccepted, accepted_of_log_eq rfl]
    simp [List.filterMap_map, Function.comp_def, Event.accepted?, accepted]

theorem plain_launch (b : Behaviour τ σ ω ε) {first : Queued τ} {rest : List (Queued τ)}
    (hqueue : m.queue = first :: rest) : m.Plain ((m.vacate rest).launch b first) := by
  rw [launch_eq]
  exact plain_firstTurn hqueue (m.rungBy_ringsFirst first.ticket) _

theorem plain_crash {first : Queued τ} {rest : List (Queued τ)} (hqueue : m.queue = first :: rest)
    (wreck : Wreck ω ε) : m.Plain ((m.vacate rest).crash first.ticket wreck) := by
  have hfirst : m.Plain ((m.vacate rest).firstTurn first.ticket false wreck.turn) :=
    plain_firstTurn hqueue m.rungBy_false _
  have hwrecked : m.Plain ((m.vacate rest).wrecked first.ticket wreck) :=
    { hfirst with
      shut := fun hshut =>
        ⟨⟨(hfirst.shut hshut).1.isOpen, (hfirst.shut hshut).1.admitted,
          (hfirst.shut hshut).1.waiting⟩, (hfirst.shut hshut).2⟩ }
  have hended :
      ⟨m.now, .ended first.ticket⟩ ∈ ((m.vacate rest).wrecked first.ticket wreck).log := by
    obtain ⟨nextPlace, heq⟩ := m.wrecked_eq rest first.ticket wreck
    rw [heq]
    refine List.mem_append_right _ (List.mem_map_of_mem (List.mem_cons_of_mem _ ?_))
    exact List.mem_append_right _ List.mem_cons_self
  exact crash_induction hwrecked fun _ hplain =>
    hplain.desert (not_isDrained_of_queue hqueue) hended

theorem plain_resume (b : Behaviour τ σ ω ε) {task : Running σ} (htask : task ∈ m.running)
    (cue : Cue) : m.Plain (m.resume b task cue) := by
  have hbusy : m.isDrained ≠ true := by
    intro hdrained
    rw [(isDrained_iff.1 hdrained).2] at htask
    cases htask
  obtain ⟨ownPlace, nextPlace, heq⟩ := m.resume_eq b task cue
  rw [heq]
  refine ⟨⟨rfl, rfl, rfl, rfl⟩, ⟨_, rfl, ?_⟩, ?_, ?_, fun _ hdrained => absurd hdrained hbusy⟩
  · intro entry hentry
    obtain ⟨event, hevent, rfl⟩ := List.mem_map.1 hentry
    exact writes_turnEvents (fun htimely => htimely task htask) hevent
  · intro hdrained
    have hover := (List.append_eq_nil_iff.1 (isDrained_iff.1 hdrained).2).2
    refine .inr ⟨task.ticket, List.mem_append_right _ (List.mem_map_of_mem ?_)⟩
    exact ended_of_paused_eq_nil hover
  · intro hshut
    refine ⟨⟨hshut.isOpen, hshut.admitted, hshut.waiting⟩, ?_⟩
    rw [accepted_of_log_eq rfl, (filterMap_turnEvents ..).1, List.append_nil]

/-- What happens only in front of the workers is plain. -/
theorem plain_of_front (events : List (Event ε)) (hsame : m.Same m')
    (hlog : m'.log = m.log ++ events.map fun event => ⟨m.now, event⟩)
    (hfront : ∀ event ∈ events, event.result? = none ∧ event.context? = none ∧
      event.ended? = none)
    (hrunning : m'.running = m.running) (hqueue : m.queue <+: m'.queue)
    (hshut : m.Shut → m'.Shut ∧ m'.queue = m.queue ∧ events.filterMap Event.accepted? = []) :
    m.Plain m' := by
  refine ⟨hsame, ⟨_, hlog, ?_⟩, ?_, ?_, ?_⟩
  · intro entry hentry
    obtain ⟨event, hevent, rfl⟩ := List.mem_map.1 hentry
    obtain ⟨hresult, hcontext, -⟩ := hfront event hevent
    refine ⟨rfl, hresult, fun context hsome => ?_⟩
    rw [hcontext] at hsome
    cases hsome
  · intro hdrained
    rw [isDrained_iff, hrunning] at hdrained
    rw [hdrained.1, List.prefix_nil] at hqueue
    exact .inl (isDrained_iff.2 ⟨hqueue, hdrained.2⟩)
  · intro hbefore
    obtain ⟨hafter, -, hnone⟩ := hshut hbefore
    exact ⟨hafter, by rw [accepted_of_log_eq hlog, hnone, List.append_nil]⟩
  · intro hbefore hdrained
    obtain ⟨-, hstill, -⟩ := hshut hbefore
    refine ⟨by rwa [isDrained_iff, hstill, hrunning, ← isDrained_iff], ?_⟩
    ext instant
    simp only [ends, hlog, List.mem_append, List.mem_map, Set.mem_ofPred_eq]
    refine ⟨fun ⟨ticket, hended⟩ => ⟨ticket, hended.resolve_right ?_⟩,
      fun ⟨ticket, hended⟩ => ⟨ticket, .inl hended⟩⟩
    rintro ⟨event, hevent, heq⟩
    obtain rfl : event = .ended ticket := congrArg Entry.event heq
    cases (hfront _ hevent).2.2

/-- A refusal is plain. -/
theorem plain_refused (ticket : Nat) (error : PoolError) (hsame : m.Same m')
    (hlog : m'.log = m.log ++ [⟨m.now, .refused ticket error⟩])
    (hrunning : m'.running = m.running) (hqueue : m'.queue = m.queue)
    (hshut : m.Shut → m'.Shut) : m.Plain m' := by
  refine plain_of_front [.refused ticket error] hsame hlog ?_ hrunning
    (hqueue ▸ List.prefix_rfl) fun hbefore => ⟨hshut hbefore, hqueue, rfl⟩
  intro event hevent
  rw [List.mem_singleton.1 hevent]
  exact ⟨rfl, rfl, rfl⟩

/-- So is that a task goes into the queue of an open pool. -/
theorem plain_accepted (queued : Queued τ) (hsame : m.Same m')
    (hlog : m'.log = m.log ++ [⟨m.now, .accepted queued.ticket⟩])
    (hrunning : m'.running = m.running) (hqueue : m'.queue = m.queue ++ [queued])
    (hopen : ¬ m.Shut) : m.Plain m' := by
  refine plain_of_front [.accepted queued.ticket] hsame hlog ?_ hrunning
    (hqueue ▸ List.prefix_append ..) fun hbefore => absurd hbefore hopen
  intro event hevent
  rw [List.mem_singleton.1 hevent]
  exact ⟨rfl, rfl, rfl⟩

theorem plain_callerTurn {caller : Waiting τ} (hcaller : caller ∈ m.admitted ++ m.waiting) :
    m.Plain (m.callerTurn caller.ticket) := by
  have hopen : ¬ m.Shut := by
    intro hshut
    rw [hshut.admitted, hshut.waiting] at hcaller
    cases hcaller
  obtain ⟨found, -, -, heq⟩ | ⟨-, heq⟩ := callerTurn_cases hcaller
  · rw [heq]
    exact plain_accepted ⟨caller.ticket, found.task⟩ ⟨rfl, rfl, rfl, rfl⟩ rfl rfl rfl hopen
  · rw [heq]
    exact plain_refused caller.ticket .timeout ⟨rfl, rfl, rfl, rfl⟩ rfl rfl rfl
      fun hshut => absurd hshut hopen

/-- An alarm is nothing that is written down. -/
theorem plain_ring (m : Machine τ σ ω ε) (ticket : Nat) : m.Plain (m.ring ticket) := by
  have hdrained : (m.ring ticket).isDrained = m.isDrained := by
    simp [isDrained, ring]
  exact ⟨⟨rfl, rfl, rfl, rfl⟩,
    ⟨[], (List.append_nil _).symm, fun _ hentry => absurd hentry List.not_mem_nil⟩,
    fun hempty => .inl (hdrained ▸ hempty),
    fun hshut => ⟨⟨hshut.isOpen, hshut.admitted, hshut.waiting⟩, rfl⟩,
    fun _ hempty => ⟨hdrained.trans hempty, rfl⟩⟩

theorem plain_enterAll (m : Machine τ σ ω ε) : m.Plain m.enterAll := by
  rw [enterAll_eq]
  refine plain_of_front (m.admitted.map fun caller => .accepted caller.ticket)
    ⟨rfl, rfl, rfl, rfl⟩ (by simp) ?_ rfl (List.prefix_append ..) ?_
  · intro event hevent
    obtain ⟨caller, -, rfl⟩ := List.mem_map.1 hevent
    exact ⟨rfl, rfl, rfl⟩
  · intro hshut
    refine ⟨⟨hshut.isOpen, rfl, hshut.waiting⟩, ?_⟩
    simp [hshut.admitted]

theorem Work.plain (hwork : Work b m m') : m.Plain m' := by
  cases hwork with
  | launch hqueue => exact plain_launch b hqueue
  | crash hqueue => exact plain_crash hqueue _
  | ring ticket => exact plain_ring m ticket
  | resume htask => exact plain_resume b htask _
  | enterAll => exact plain_enterAll m
  | callerTurn hcaller => exact plain_callerTurn hcaller

theorem not_shut_of_isOpen (hopen : m.isOpen = true) : ¬ m.Shut := by
  intro hshut
  rw [hshut.isOpen] at hopen
  cases hopen

theorem plain_refuseNext (m : Machine τ σ ω ε) (error : PoolError) :
    m.Plain (m.ticketed.note (.refused m.nextTicket error)) :=
  plain_refused m.nextTicket error ⟨rfl, rfl, rfl, rfl⟩ rfl rfl rfl
    fun hshut => ⟨hshut.isOpen, hshut.admitted, hshut.waiting⟩

theorem plain_acceptNext (hopen : m.isOpen = true) (task : τ) :
    m.Plain (m.ticketed.enqueue m.nextTicket task) :=
  plain_accepted ⟨m.nextTicket, task⟩ ⟨rfl, rfl, rfl, rfl⟩ rfl rfl rfl (not_shut_of_isOpen hopen)

theorem plain_submit (m : Machine τ σ ω ε) (task : τ) : m.Plain (m.submit task).2 := by
  obtain ⟨htakes, -, hsubmit⟩ | ⟨error, -, hsubmit⟩ := m.submit_cases task
  · rw [hsubmit]
    exact plain_acceptNext (takesTasks_iff.1 htakes).1 task
  · rw [hsubmit]
    exact m.plain_refuseNext error

theorem plain_submitWait (m : Machine τ σ ω ε) (task : τ) (patience : Nat) (inFront : Bool) :
    m.Plain (m.submitWait task patience inFront).2 := by
  rw [submitWait_eq]
  split
  · exact m.plain_refuseNext _
  next hnot =>
    have hopen : m.isOpen = true := (takesTasks_iff.1 (by simpa using hnot)).1
    split
    · exact plain_acceptNext hopen task
    split
    · exact m.plain_refuseNext _
    · refine plain_of_front [] ⟨rfl, rfl, rfl, rfl⟩ ?_ nofun rfl List.prefix_rfl
        fun hshut => absurd hshut (not_shut_of_isOpen hopen)
      simp [ticketed]

theorem plain_share (m : Machine τ σ ω ε) (world : ω) : m.Plain { m with world } := by
  refine plain_of_front [] ⟨rfl, rfl, rfl, rfl⟩ (by simp) nofun rfl List.prefix_rfl
    fun hshut => ⟨⟨hshut.isOpen, hshut.admitted, hshut.waiting⟩, rfl, rfl⟩

/-- All moves are plain but the return of the closing call, and that time passes. -/
theorem Move.cases_plain (hmove : Move b m m') :
    m.Plain m' ∨
      (m.closing.isSome = true ∧ m.isDrained = true ∧ m' = m.finishClosing) ∨
      (∃ closing, m.closing = some closing ∧ closing.limit ≤ m.now ∧ m.isDrained = false ∧
        m' = m.giveUp) ∨
      ∃ instant, m.Punctual ∧ m.now < instant ∧
        (∀ closing, m.closing = some closing → instant ≤ closing.limit) ∧
        m' = { m with now := instant } := by
  cases hmove with
  | due hdue =>
      cases hdue with
      | work hwork => exact .inl hwork.plain
      | finishClosing hclosing hdrained => exact .inr (.inl ⟨hclosing, hdrained, rfl⟩)
      | giveUp hclosing hlimit hdrained =>
          exact .inr (.inr (.inl ⟨_, hclosing, hlimit, hdrained, rfl⟩))
  | submit task => exact .inl (m.plain_submit task)
  | submitWait task patience inFront => exact .inl (m.plain_submitWait task patience inFront)
  | share world => exact .inl (m.plain_share world)
  | clock hpunctual hlater hlimit =>
      exact .inr (.inr (.inr ⟨_, hpunctual, hlater, hlimit, rfl⟩))

/-- Whether the pool takes tasks is not changed by any of them. -/
theorem Move.isOpen (hmove : Move b m m') : m'.isOpen = m.isOpen := by
  obtain hplain | ⟨-, -, rfl⟩ | ⟨closing, -, -, -, rfl⟩ | ⟨instant, -, -, -, rfl⟩ :=
    hmove.cases_plain
  · exact hplain.isOpen
  · rfl
  · rfl
  · rfl

theorem Course.isOpen (hcourse : Course b m m') : m'.isOpen = m.isOpen := by
  induction hcourse with
  | refl => rfl
  | tail _ hmove ih => exact hmove.isOpen.trans ih

end Plain

end Machine

end Upkeep.Pool
