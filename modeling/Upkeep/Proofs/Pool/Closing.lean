/-
# The closing of a pool

A call to close the pool waits for its tasks, and returns in one of two ways. As long as it waits,
and after it has returned well, no context is cancelled but by its deadline. After it has given
up, every context is cancelled. Which way it goes is decided by whether the tasks are over when its
patience ends: `Phase` says how far the closing has come, and every move of the pool leads from
one phase to the same or to the next one.

The call returns well at the very instant at which the last task ends. A pool that runs empty has
done so by the end of a task, and a punctual one lets no time pass before the call returns.
-/

import Upkeep.Proofs.Pool.Conservation
import Upkeep.Proofs.Pool.Plain

namespace Upkeep.Pool

variable {τ σ ω ε : Type}

/-- The log of a pool whose tasks have been given up at an instant, cut in two there. -/
structure GivesUp (instant : Nat) (entries earlier later : List (Entry ε)) : Prop where
  split : entries = earlier ++ ⟨instant, .closed (.error .shutdownTimeout)⟩ :: later
  returns_earlier : returns earlier = []
  returns_later : returns later = []
  byDeadline_earlier : ByDeadline earlier
  allCancelled_later : AllCancelled later
  le_later : ∀ entry ∈ later, instant ≤ entry.instant

namespace Machine

section Plain

variable {m m' : Machine τ σ ω ε}

/-! ## What moves write down -/

theorem Plain.returns_log (hplain : m.Plain m') : returns m'.log = returns m.log := by
  obtain ⟨entries, hlog, hwrites⟩ := hplain.told
  rw [hlog, returns_append, returns_eq_nil fun entry hentry => (hwrites entry hentry).result,
    List.append_nil]

/-- What a task sees is what the pool shows it at that moment. -/
theorem byDeadline_of_writes (htimely : m.Timely) (hgaveUp : m.gaveUp = false)
    {entries : List (Entry ε)} (hwrites : ∀ entry ∈ entries, m.Writes entry) :
    ByDeadline entries := by
  intro entry hentry seen hseen
  obtain ⟨rung, hcontext, hrung⟩ := (hwrites entry hentry).context seen hseen
  have hcancelled : seen.cancelled = rung := by rw [hcontext, context, hgaveUp, Bool.false_or]
  have hnow : seen.now = m.now := congrArg Context.now hcontext
  rw [hcancelled, hnow]
  exact hrung htimely

theorem allCancelled_of_writes (hgaveUp : m.gaveUp = true) {entries : List (Entry ε)}
    (hwrites : ∀ entry ∈ entries, m.Writes entry) : AllCancelled entries := by
  intro entry hentry seen hseen
  obtain ⟨rung, hcontext, -⟩ := (hwrites entry hentry).context seen hseen
  rw [hcontext]
  exact cancelled_context hgaveUp _ rung

theorem Plain.byDeadline_log (hplain : m.Plain m') (htimely : m.Timely)
    (hgaveUp : m.gaveUp = false) (hbefore : ByDeadline m.log) : ByDeadline m'.log := by
  obtain ⟨entries, hlog, hwrites⟩ := hplain.told
  rw [hlog]
  exact hbefore.append (byDeadline_of_writes htimely hgaveUp hwrites)

/-- Nothing is written down before it happens. -/
def Past (m : Machine τ σ ω ε) : Prop :=
  ∀ entry ∈ m.log, entry.instant ≤ m.now

theorem Plain.past (hplain : m.Plain m') (hpast : m.Past) : m'.Past := by
  obtain ⟨entries, hlog, hwrites⟩ := hplain.told
  intro entry hentry
  rw [hlog, List.mem_append] at hentry
  rw [hplain.now]
  rcases hentry with hold | hnew
  · exact hpast entry hold
  · exact (hwrites entry hnew).instant.le

theorem Past.clock (hpast : m.Past) {instant : Nat} (hlater : m.now < instant) :
    ({ m with now := instant } : Machine τ σ ω ε).Past := by
  intro entry hentry
  exact Nat.le_trans (hpast entry hentry) (Nat.le_of_lt hlater)

end Plain

/-! ## Before the pool is closed -/

/-- Nobody has called to close the pool. -/
structure Untouched (m : Machine τ σ ω ε) : Prop where
  isOpen : m.isOpen = true
  closing : m.closing = none
  gaveUp : m.gaveUp = false
  not_returned : returns m.log = []
  timely : m.Timely
  byDeadline : ByDeadline m.log
  past : m.Past

section Untouched

variable {b : Behaviour τ σ ω ε} {m m' : Machine τ σ ω ε}

theorem Untouched.move (huntouched : m.Untouched) (hmove : Move b m m') : m'.Untouched := by
  have htimely := hmove.timely huntouched.timely
  obtain hplain | ⟨hclosing, -, -⟩ | ⟨closing, hclosing, -⟩ | ⟨instant, -, hlater, -, rfl⟩ :=
    hmove.cases_plain
  · exact ⟨hplain.isOpen.trans huntouched.isOpen, hplain.closing.trans huntouched.closing,
      hplain.gaveUp.trans huntouched.gaveUp, hplain.returns_log.trans huntouched.not_returned,
      htimely, hplain.byDeadline_log huntouched.timely huntouched.gaveUp huntouched.byDeadline,
      hplain.past huntouched.past⟩
  · simp [huntouched.closing] at hclosing
  · simp [huntouched.closing] at hclosing
  · exact { huntouched with timely := htimely, past := huntouched.past.clock hlater }

theorem Untouched.course (huntouched : m.Untouched) (hcourse : Course b m m') :
    m'.Untouched := by
  induction hcourse with
  | refl => exact huntouched
  | tail _ hmove ih => exact ih.move hmove

end Untouched

/-! ## How far the closing has come -/

/-- The call still waits for the tasks. -/
structure Pending (shutAt limit : Nat) (m : Machine τ σ ω ε) : Prop where
  closing : ∃ place, m.closing = some ⟨limit, place⟩
  gaveUp : m.gaveUp = false
  not_returned : returns m.log = []
  timely : m.Timely
  byDeadline : ByDeadline m.log
  past : m.Past
  le_now : shutAt ≤ m.now
  now_le : m.now ≤ limit
  /-- A pool that is empty has just become so, if it has not been from the beginning. -/
  last : m.isDrained = true → m.now = shutAt ∨ m.now ∈ ends m.log

/-- The call has returned well. -/
structure Finished (shutAt limit : Nat) (m : Machine τ σ ω ε) : Prop where
  closing : m.closing = none
  gaveUp : m.gaveUp = false
  timely : m.Timely
  byDeadline : ByDeadline m.log
  drained : m.isDrained = true
  returned : ∃ last ≤ limit, returns m.log = [(last, .ok ())] ∧
    IsGreatest (insert shutAt (ends m.log)) last

/-- The call has given up. -/
structure Overrun (limit : Nat) (m : Machine τ σ ω ε) : Prop where
  closing : m.closing = none
  gaveUp : m.gaveUp = true
  le_now : limit ≤ m.now
  returned : ∃ earlier later, GivesUp limit m.log earlier later ∧
    ∃ ticket ∈ m.accepted, ∀ instant, ⟨instant, .ended ticket⟩ ∉ earlier

/-- How far a call has come that has closed the pool at one instant and has patience until
another. -/
inductive Phase (shutAt limit : Nat) (m : Machine τ σ ω ε) : Prop
  | pending (hpending : m.Pending shutAt limit)
  | finished (hfinished : m.Finished shutAt limit)
  | overrun (hoverrun : m.Overrun limit)

section Phases

variable {b : Behaviour τ σ ω ε} {m m' : Machine τ σ ω ε} {shutAt limit : Nat}

theorem mem_endings_iff {ticket : Nat} :
    ticket ∈ m.endings ↔ ∃ instant, ⟨instant, .ended ticket⟩ ∈ m.log := by
  constructor
  · intro hended
    obtain ⟨⟨instant, event⟩, hentry, hsome⟩ := List.mem_filterMap.1 hended
    cases event with
    | ended other => exact ⟨instant, Option.some.inj hsome ▸ hentry⟩
    | accepted | refused | started | said | closed => cases hsome
  · rintro ⟨instant, hentry⟩
    exact List.mem_filterMap.2 ⟨_, hentry, rfl⟩

/-- A task that waits or runs is not over. -/
theorem Sound.exists_unfinished (hsound : m.Sound) (hbusy : m.isDrained = false) :
    ∃ ticket ∈ m.accepted, ∀ instant, ⟨instant, .ended ticket⟩ ∉ m.log := by
  have horder : m.accepted = m.starts.map (·.1) ++ (m.dropped ++ m.queue.map (·.ticket)) :=
    hsound.in_order
  obtain ⟨ticket, hticket⟩ : ∃ ticket, ticket ∈ m.queue.map (·.ticket) ++
      m.running.map (·.ticket) := by
    apply List.exists_mem_of_ne_nil
    intro hnone
    simp only [List.append_eq_nil_iff, List.map_eq_nil_iff] at hnone
    rw [isDrained_iff.2 hnone] at hbusy
    cases hbusy
  have haccepted : ticket ∈ m.accepted := by
    rw [horder, List.mem_append]
    rcases List.mem_append.1 hticket with hqueued | hruns
    · exact .inr (List.mem_append_right _ hqueued)
    · exact .inl (hsound.in_hand.symm.subset (List.mem_append_left _ hruns))
  refine ⟨ticket, haccepted, fun instant hended => ?_⟩
  have hone := (hsound.keeps haccepted).one_place
  have hover := List.count_pos_iff.2 (mem_endings_iff.2 ⟨instant, hended⟩)
  have hstill := List.count_pos_iff.2 hticket
  rw [List.count_append, List.count_append] at hone
  omega

theorem Shut.move (hshut : m.Shut) (hmove : Move b m m') :
    m'.Shut ∧ m'.accepted = m.accepted := by
  obtain hplain | ⟨-, -, rfl⟩ | ⟨closing, -, -, -, rfl⟩ | ⟨instant, -, -, -, rfl⟩ :=
    hmove.cases_plain
  · exact hplain.shut hshut
  · exact ⟨⟨hshut.isOpen, hshut.admitted, hshut.waiting⟩,
      congrArg Tally.accepted (tally_closed _ _)⟩
  · exact ⟨⟨hshut.isOpen, hshut.admitted, hshut.waiting⟩,
      congrArg Tally.accepted (tally_closed _ _)⟩
  · exact ⟨⟨hshut.isOpen, hshut.admitted, hshut.waiting⟩, rfl⟩

theorem ends_closed (entries : List (Entry ε)) (instant : Nat) (result : Except PoolError Unit) :
    ends (entries ++ [⟨instant, .closed result⟩]) = ends entries := by
  simp [ends]

theorem byDeadline_closed (instant : Nat) (result : Except PoolError Unit) :
    ByDeadline [(⟨instant, .closed result⟩ : Entry ε)] := by
  intro entry hentry context hcontext
  rw [List.mem_singleton.1 hentry] at hcontext
  cases hcontext

theorem Plain.pending (hplain : m.Plain m') (htimely : m'.Timely)
    (hpending : m.Pending shutAt limit) : m'.Pending shutAt limit where
  closing := by
    rw [hplain.closing]
    exact hpending.closing
  gaveUp := hplain.gaveUp.trans hpending.gaveUp
  not_returned := hplain.returns_log.trans hpending.not_returned
  timely := htimely
  byDeadline := hplain.byDeadline_log hpending.timely hpending.gaveUp hpending.byDeadline
  past := hplain.past hpending.past
  le_now := by
    rw [hplain.now]
    exact hpending.le_now
  now_le := by
    rw [hplain.now]
    exact hpending.now_le
  last hdrained := by
    rw [hplain.now]
    obtain ⟨entries, hlog, -⟩ := hplain.told
    rcases hplain.drained hdrained with hbefore | hended
    · refine (hpending.last hbefore).imp_right fun ⟨ticket, hended⟩ => ⟨ticket, ?_⟩
      rw [hlog]
      exact List.mem_append_left _ hended
    · exact .inr hended

theorem Pending.finishClosing (hpending : m.Pending shutAt limit) (hdrained : m.isDrained = true) :
    m.finishClosing.Finished shutAt limit := by
  refine ⟨rfl, hpending.gaveUp, hpending.timely,
    hpending.byDeadline.append (byDeadline_closed _ _), hdrained, m.now, hpending.now_le, ?_, ?_⟩
  · show returns (m.log ++ [⟨m.now, .closed (.ok ())⟩]) = _
    rw [returns_append, hpending.not_returned]
    rfl
  · show IsGreatest (insert shutAt (ends (m.log ++ [⟨m.now, .closed (.ok ())⟩]))) m.now
    rw [ends_closed]
    refine ⟨hpending.last hdrained, ?_⟩
    rintro instant (rfl | ⟨ticket, hended⟩)
    · exact hpending.le_now
    · exact hpending.past _ hended

theorem Pending.giveUp (hpending : m.Pending shutAt limit) (hsound : m.Sound)
    (hlimit : limit ≤ m.now) (hbusy : m.isDrained = false) : m.giveUp.Overrun limit := by
  obtain rfl : m.now = limit := Nat.le_antisymm hpending.now_le hlimit
  obtain ⟨ticket, haccepted, hunfinished⟩ := hsound.exists_unfinished hbusy
  have hstill : m.giveUp.accepted = m.accepted := congrArg Tally.accepted (tally_closed _ _)
  refine ⟨rfl, rfl, Nat.le_refl _, m.log, [], ?_, ticket, hstill ▸ haccepted, hunfinished⟩
  exact ⟨rfl, hpending.not_returned, rfl, hpending.byDeadline, nofun, nofun⟩

theorem Pending.clock (hpending : m.Pending shutAt limit) (hpunctual : m.Punctual) {instant : Nat}
    (htimely : ({ m with now := instant } : Machine τ σ ω ε).Timely) (hlater : m.now < instant)
    (hlimit : ∀ closing, m.closing = some closing → instant ≤ closing.limit) :
    ({ m with now := instant } : Machine τ σ ω ε).Pending shutAt limit := by
  obtain ⟨place, hclosing⟩ := hpending.closing
  have hbusy := hpunctual.undrained (by rw [hclosing]; rfl)
  refine ⟨⟨place, hclosing⟩, hpending.gaveUp, hpending.not_returned, htimely,
    hpending.byDeadline, hpending.past.clock hlater,
    Nat.le_trans hpending.le_now (Nat.le_of_lt hlater), hlimit _ hclosing, ?_⟩
  intro hdrained
  have hempty : m.isDrained = true := hdrained
  rw [hempty] at hbusy
  cases hbusy

theorem Plain.finished (hplain : m.Plain m') (htimely : m'.Timely) (hshut : m.Shut)
    (hfinished : m.Finished shutAt limit) : m'.Finished shutAt limit := by
  obtain ⟨hdrained, hends⟩ := hplain.idle hshut hfinished.drained
  refine ⟨hplain.closing.trans hfinished.closing, hplain.gaveUp.trans hfinished.gaveUp,
    htimely, hplain.byDeadline_log hfinished.timely hfinished.gaveUp hfinished.byDeadline,
    hdrained, ?_⟩
  rw [hplain.returns_log, hends]
  exact hfinished.returned

theorem Plain.overrun (hplain : m.Plain m') (hshut : m.Shut) (hoverrun : m.Overrun limit) :
    m'.Overrun limit := by
  obtain ⟨earlier, later, hgives, hunfinished⟩ := hoverrun.returned
  obtain ⟨entries, hlog, hwrites⟩ := hplain.told
  refine ⟨hplain.closing.trans hoverrun.closing, hplain.gaveUp.trans hoverrun.gaveUp, ?_,
    earlier, later ++ entries, ⟨?_, hgives.returns_earlier, ?_, hgives.byDeadline_earlier, ?_, ?_⟩,
    ?_⟩
  · rw [hplain.now]
    exact hoverrun.le_now
  · rw [hlog, hgives.split, List.append_assoc, List.cons_append]
  · rw [returns_append, hgives.returns_later,
      returns_eq_nil fun entry hentry => (hwrites entry hentry).result, List.append_nil]
  · exact hgives.allCancelled_later.append (allCancelled_of_writes hoverrun.gaveUp hwrites)
  · intro entry hentry
    rcases List.mem_append.1 hentry with hbefore | hnew
    · exact hgives.le_later entry hbefore
    · rw [(hwrites entry hnew).instant]
      exact hoverrun.le_now
  · rw [(hplain.shut hshut).2]
    exact hunfinished

/-- Every move leads from one phase to the same or to the next one. -/
theorem Phase.move (hphase : m.Phase shutAt limit) (hshut : m.Shut) (hsound : m.Sound)
    (hmove : Move b m m') : m'.Phase shutAt limit := by
  have htimely : m.Timely → m'.Timely := hmove.timely
  obtain hplain | ⟨hclosing, hdrained, rfl⟩ | ⟨closing, hclosing, hlimit, hbusy, rfl⟩ |
    ⟨instant, hpunctual, hlater, hlimit, rfl⟩ := hmove.cases_plain
  · cases hphase with
    | pending hpending => exact .pending (hplain.pending (htimely hpending.timely) hpending)
    | finished hfinished =>
        exact .finished (hplain.finished (htimely hfinished.timely) hshut hfinished)
    | overrun hoverrun => exact .overrun (hplain.overrun hshut hoverrun)
  · cases hphase with
    | pending hpending => exact .finished (hpending.finishClosing hdrained)
    | finished hfinished => simp [hfinished.closing] at hclosing
    | overrun hoverrun => simp [hoverrun.closing] at hclosing
  · cases hphase with
    | pending hpending =>
        obtain ⟨place, hpatience⟩ := hpending.closing
        obtain rfl := Option.some.inj (hclosing.symm.trans hpatience)
        exact .overrun (hpending.giveUp hsound hlimit hbusy)
    | finished hfinished => simp [hfinished.closing] at hclosing
    | overrun hoverrun => simp [hoverrun.closing] at hclosing
  · cases hphase with
    | pending hpending =>
        exact .pending (hpending.clock hpunctual (htimely hpending.timely) hlater hlimit)
    | finished hfinished => exact .finished { hfinished with timely := htimely hfinished.timely }
    | overrun hoverrun =>
        exact .overrun
          { hoverrun with le_now := Nat.le_trans hoverrun.le_now (Nat.le_of_lt hlater) }

/-- A closed pool stays closed, and accepts nothing. -/
theorem Shut.course (hshut : m.Shut) (hcourse : Course b m m') :
    m'.Shut ∧ m'.accepted = m.accepted := by
  induction hcourse with
  | refl => exact ⟨hshut, rfl⟩
  | tail _ hmove ih =>
      obtain ⟨hstill, hnone⟩ := ih.1.move hmove
      exact ⟨hstill, hnone.trans ih.2⟩

/-- Whatever happens in a closed pool, its closing goes on from phase to phase. -/
theorem Phase.course (hphase : m.Phase shutAt limit) (hshut : m.Shut) (hsound : m.Sound)
    (hcourse : Course b m m') : m'.Phase shutAt limit := by
  induction hcourse with
  | refl => exact hphase
  | tail hbefore hmove ih =>
      exact ih.move (hshut.course hbefore).1 (hsound.reaches (Course.reaches hbefore)) hmove

end Phases

end Machine

end Upkeep.Pool
