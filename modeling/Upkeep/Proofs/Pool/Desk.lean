/-
# Callers in line

Of a pool, the callers who wait for room see very little: the clock, whether the pool is open, when
its last worker was lost, who stands in line with them, who has been given room, and what others
were answered. A desk is a pool of which only that is left. What can happen at a desk is said once,
by `Desk.Step`, with the two conditions that carry everything else: nobody is turned away, or goes
in at a turn of their own, before their patience ends, and time never passes over the end of
somebody's patience.

The line is in the order of the tickets, and those who have been given room are its front. They go
in in this order too, with one exception. A caller whose patience ends goes in at once, if room has
been given to it; whoever is before it in line has been given room as well, but may go in a moment
later, or be turned away if the last worker is lost in between. So `InTurn` speaks of those who
still have to go in at the same instant.
-/

import Upkeep.Proofs.Pool.Tally

namespace Upkeep.Pool

variable {τ : Type}

/-- What a submission was answered: when, under which ticket, and how. -/
structure Answer where
  instant : Nat
  ticket : Nat
  result : Except PoolError Unit
deriving DecidableEq

/-- What callers can see of a pool. -/
structure Desk (τ : Type) where
  now : Nat
  isOpen : Bool
  /-- When the last worker was lost. -/
  lostAt : Option Nat
  nextTicket : Nat
  /-- The callers who have been given room. -/
  admitted : List (Waiting τ)
  waiting : List (Waiting τ)
  answers : List Answer

namespace Desk

/-- Everybody in line. -/
def callers (d : Desk τ) : List (Waiting τ) :=
  d.admitted ++ d.waiting

/-- Whether the desk takes tasks at all. -/
def takes (d : Desk τ) : Bool :=
  d.isOpen && d.lostAt.isNone

/-- What can happen at a desk. Submissions, the closing of the pool and the passing of time find
nobody who has been given room. -/
inductive Step : Desk τ → Desk τ → Prop
  | giveRoom {d : Desk τ} {first rest : List (Waiting τ)} (hwaiting : d.waiting = first ++ rest) :
      Step d { d with admitted := d.admitted ++ first, waiting := rest }
  | enterAll (d : Desk τ) :
      Step d
        { d with
          admitted := []
          answers := d.answers ++ d.admitted.map fun caller => ⟨d.now, caller.ticket, .ok ()⟩ }
  | enter {d : Desk τ} {caller : Waiting τ} (hcaller : caller ∈ d.admitted)
      (hexpiry : caller.expiry ≤ d.now) :
      Step d
        { d with
          admitted := d.admitted.filter (·.ticket ≠ caller.ticket)
          answers := d.answers ++ [⟨d.now, caller.ticket, .ok ()⟩] }
  | leave {d : Desk τ} {caller : Waiting τ} (hcaller : caller ∈ d.waiting)
      (hexpiry : caller.expiry ≤ d.now) :
      Step d
        { d with
          waiting := d.waiting.filter (·.ticket ≠ caller.ticket)
          answers := d.answers ++ [⟨d.now, caller.ticket, .error .timeout⟩] }
  | answer {d : Desk τ} (hadmitted : d.admitted = []) (result : Except PoolError Unit)
      (hok : result = .ok () → d.waiting = []) :
      Step d
        { d with
          nextTicket := d.nextTicket + 1
          answers := d.answers ++ [⟨d.now, d.nextTicket, result⟩] }
  | wait {d : Desk τ} (hadmitted : d.admitted = []) (htakes : d.takes = true)
      {caller : Waiting τ} (hticket : caller.ticket = d.nextTicket)
      (hexpiry : d.now ≤ caller.expiry) :
      Step d { d with nextTicket := d.nextTicket + 1, waiting := d.waiting ++ [caller] }
  | shut {d : Desk τ} (hadmitted : d.admitted = []) :
      Step d
        { d with
          isOpen := false
          waiting := []
          answers := d.answers ++
            d.waiting.map fun caller => ⟨d.now, caller.ticket, .error .shutdown⟩ }
  | desert {d : Desk τ} (hlost : d.lostAt = none) :
      Step d
        { d with
          lostAt := some d.now
          admitted := []
          waiting := []
          answers := d.answers ++
            d.callers.map fun caller => ⟨d.now, caller.ticket, .error .shutdown⟩ }
  | clock {d : Desk τ} (hadmitted : d.admitted = []) {instant : Nat} (hlater : d.now ≤ instant)
      (hpatient : ∀ caller ∈ d.waiting, instant ≤ caller.expiry) :
      Step d { d with now := instant }

/-- Any number of things that happen at a desk. -/
abbrev Steps : Desk τ → Desk τ → Prop :=
  Relation.ReflTransGen Step

variable {d d' : Desk τ} {ticket since expiry : Nat}

/-- What was answered stays, and answers that are added are not from before. A pool that is closed
stays so, one without workers stays without, and time does not go back. -/
structure Lasts (d d' : Desk τ) : Prop where
  answers : d.answers <+: d'.answers
  since : ∀ answer ∈ d'.answers, answer ∈ d.answers ∨ d.now ≤ answer.instant
  closed : d.isOpen = false → d'.isOpen = false
  lost : d'.lostAt = d.lostAt ∨ d.lostAt = none ∧ ∃ instant, d'.lostAt = some instant ∧
    d.now ≤ instant
  now : d.now ≤ d'.now

/-- Answers that are given now are not from before. -/
theorem lasts_of_append {new : List Answer} (hnew : ∀ answer ∈ new, answer.instant = d.now)
    (hanswers : d'.answers = d.answers ++ new) (hclosed : d.isOpen = false → d'.isOpen = false)
    (hlost : d'.lostAt = d.lostAt ∨ d.lostAt = none ∧ d'.lostAt = some d.now)
    (hnow : d.now ≤ d'.now) : Lasts d d' := by
  refine ⟨?_, ?_, hclosed, hlost.imp_right fun ⟨hnone, hsome⟩ => ⟨hnone, d.now, hsome, le_refl _⟩,
    hnow⟩
  · rw [hanswers]
    exact List.prefix_append ..
  · intro answer hanswer
    rw [hanswers, List.mem_append] at hanswer
    exact hanswer.imp id fun hadded => Nat.le_of_eq (hnew answer hadded).symm

theorem Lasts.refl (d : Desk τ) : Lasts d d :=
  lasts_of_append (List.forall_mem_nil _) (List.append_nil _).symm id (.inl rfl) (Nat.le_refl _)

theorem Step.lasts (hstep : Step d d') : Lasts d d' := by
  cases hstep with
  | giveRoom | wait =>
      exact lasts_of_append (List.forall_mem_nil _) (List.append_nil _).symm id (.inl rfl)
        (Nat.le_refl _)
  | enterAll | enter | leave | answer =>
      exact lasts_of_append (by simp) rfl id (.inl rfl) (Nat.le_refl _)
  | shut => exact lasts_of_append (by simp) rfl (fun _ => rfl) (.inl rfl) (Nat.le_refl _)
  | desert hlost => exact lasts_of_append (by simp) rfl id (.inr ⟨hlost, rfl⟩) (Nat.le_refl _)
  | clock _ hlater =>
      exact lasts_of_append (List.forall_mem_nil _) (List.append_nil _).symm id (.inl rfl) hlater

theorem Lasts.lostAt_eq (hlast : Lasts d d') {instant : Nat} (hlost : d.lostAt = some instant) :
    d'.lostAt = some instant := by
  rcases hlast.lost with hsame | ⟨hnone, -⟩
  · rw [hsame, hlost]
  · rw [hnone] at hlost
    cases hlost

theorem Steps.lasts (hsteps : Steps d d') : Lasts d d' := by
  induction hsteps with
  | refl => exact .refl d
  | tail _ hstep ih =>
      have hlast := hstep.lasts
      refine ⟨ih.answers.trans hlast.answers, ?_, hlast.closed ∘ ih.closed, ?_,
        ih.now.trans hlast.now⟩
      · intro answer hanswer
        rcases hlast.since answer hanswer with hold | hnew
        · exact ih.since answer hold
        · exact .inr (ih.now.trans hnew)
      · rcases hlast.lost with hsame | ⟨hnone, instant, hsome, hnow⟩
        · rw [hsame]
          exact ih.lost
        · rcases ih.lost with hbefore | ⟨-, lost, hlost, -⟩
          · exact .inr ⟨hbefore ▸ hnone, instant, hsome, ih.now.trans hnow⟩
          · rw [hnone] at hlost
            cases hlost

/-! ## The line -/

/-- The line is in the order of the tickets, everybody with a ticket stands in it or has been
answered once, and nobody's patience has ended before now. -/
structure Orderly (d : Desk τ) : Prop where
  in_line : (d.callers.map (·.ticket)).Pairwise (· < ·)
  everyone : (d.answers.map (·.ticket) ++ d.callers.map (·.ticket)).Perm (List.range d.nextTicket)
  patient : ∀ caller ∈ d.callers, d.now ≤ caller.expiry
  past : ∀ answer ∈ d.answers, answer.instant ≤ d.now
  closed : d.takes = false → d.callers = []

namespace Orderly

theorem lt_nextTicket (horderly : d.Orderly) {caller : Waiting τ} (hcaller : caller ∈ d.callers) :
    caller.ticket < d.nextTicket := by
  apply List.mem_range.1
  apply horderly.everyone.subset
  exact List.mem_append_right _ (List.mem_map_of_mem hcaller)

/-- Whoever has a ticket has been answered or stands in line. -/
theorem answered_or_in_line (horderly : d.Orderly) (hticket : ticket < d.nextTicket) :
    (∃ answer ∈ d.answers, answer.ticket = ticket) ∨
      ∃ caller ∈ d.callers, caller.ticket = ticket := by
  have hmem := horderly.everyone.symm.subset (List.mem_range.2 hticket)
  exact (List.mem_append.1 hmem).imp List.mem_map.1 List.mem_map.1

/-- Whoever stands in line has not been answered. -/
theorem unanswered (horderly : d.Orderly) {caller : Waiting τ} (hcaller : caller ∈ d.callers) :
    ∀ answer ∈ d.answers, answer.ticket ≠ caller.ticket := by
  have hnodup := horderly.everyone.nodup_iff.2 List.nodup_range
  intro answer hanswer
  exact (List.nodup_append.1 hnodup).2.2 _ (List.mem_map_of_mem hanswer) _
    (List.mem_map_of_mem hcaller)

/-- Nobody is answered twice. -/
theorem answer_unique (horderly : d.Orderly) {answer other : Answer} (hanswer : answer ∈ d.answers)
    (hother : other ∈ d.answers) (hsame : answer.ticket = other.ticket) : answer = other := by
  have hnodup := horderly.everyone.nodup_iff.2 List.nodup_range
  exact List.inj_on_of_nodup_map (List.nodup_append.1 hnodup).1 hanswer hother hsame

/-- No two in line have the same ticket. -/
theorem caller_unique (horderly : d.Orderly) {caller other : Waiting τ}
    (hcaller : caller ∈ d.callers) (hother : other ∈ d.callers)
    (hsame : caller.ticket = other.ticket) : caller = other := by
  have hnodup : (d.callers.map (·.ticket)).Nodup := horderly.in_line.imp Nat.ne_of_lt
  exact List.inj_on_of_nodup_map hnodup hcaller hother hsame

/-- If somebody who has been given room is behind somebody in line, that one has been given room as
well. -/
theorem admitted_of_lt (horderly : d.Orderly) {caller earlier : Waiting τ}
    (hcaller : caller ∈ d.admitted) (hearlier : earlier ∈ d.callers)
    (hlt : earlier.ticket < caller.ticket) : earlier ∈ d.admitted := by
  rcases List.mem_append.1 hearlier with hadmitted | hwaiting
  · exact hadmitted
  · have hline := horderly.in_line
    rw [callers, List.map_append, List.pairwise_append] at hline
    have hbehind := hline.2.2 _ (List.mem_map_of_mem hcaller) _ (List.mem_map_of_mem hwaiting)
    exact absurd hlt (Nat.lt_asymm hbehind)

/-- Whoever is before somebody who has been given room has been answered, or been given room too. -/
theorem answered_or_admitted (horderly : d.Orderly) {caller : Waiting τ}
    (hcaller : caller ∈ d.admitted) {earlier : Nat} (hearlier : earlier < caller.ticket) :
    (∃ answer ∈ d.answers, answer.ticket = earlier) ∨
      ∃ other ∈ d.admitted, other.ticket = earlier := by
  have hnext := horderly.lt_nextTicket (List.mem_append_left _ hcaller)
  rcases horderly.answered_or_in_line (hearlier.trans hnext) with hpast | ⟨other, hother, rfl⟩
  · exact .inl hpast
  · exact .inr ⟨other, horderly.admitted_of_lt hcaller hother hearlier, rfl⟩

/-- A desk stays orderly if some of those in line get their answers now. -/
theorem of_answered (horderly : d.Orderly) (new : List Answer) (hnow : d'.now = d.now)
    (hnext : d'.nextTicket = d.nextTicket) (hanswers : d'.answers = d.answers ++ new)
    (hcallers : d'.callers.Sublist d.callers)
    (hclosed : d'.takes = false → d.takes = false ∨ d'.callers = [])
    (hinstant : ∀ answer ∈ new, answer.instant = d.now)
    (hperm : (new.map (·.ticket) ++ d'.callers.map (·.ticket)).Perm (d.callers.map (·.ticket))) :
    d'.Orderly where
  in_line := horderly.in_line.sublist (hcallers.map _)
  everyone := by
    rw [hanswers, hnext, List.map_append, List.append_assoc]
    exact (hperm.append_left _).trans horderly.everyone
  patient caller hcaller := hnow ▸ horderly.patient caller (hcallers.subset hcaller)
  past answer hanswer := by
    rw [hanswers, List.mem_append] at hanswer
    rw [hnow]
    rcases hanswer with hold | hnew
    · exact horderly.past answer hold
    · exact Nat.le_of_eq (hinstant answer hnew)
  closed hshut := by
    rcases hclosed hshut with hbefore | hnobody
    · exact List.sublist_nil.1 (horderly.closed hbefore ▸ hcallers)
    · exact hnobody

/-- A submission that is answered at once takes the next ticket. -/
theorem answer (horderly : d.Orderly) (result : Except PoolError Unit) :
    Orderly
      { d with
        nextTicket := d.nextTicket + 1
        answers := d.answers ++ [⟨d.now, d.nextTicket, result⟩] } where
  in_line := horderly.in_line
  everyone := by
    rw [List.perm_iff_count]
    intro ticket
    have hhere := horderly.everyone.count_eq ticket
    simp only [callers, List.map_append, List.map_cons, List.map_nil, List.count_append,
      List.range_succ] at hhere ⊢
    omega
  patient := horderly.patient
  past answer hanswer := by
    rcases List.mem_append.1 hanswer with hold | hnew
    · exact horderly.past answer hold
    · rw [List.mem_singleton.1 hnew]
  closed := horderly.closed

/-- Whoever has to wait goes to the end of the line. -/
theorem wait (horderly : d.Orderly) (htakes : d.takes = true) {caller : Waiting τ}
    (hticket : caller.ticket = d.nextTicket) (hexpiry : d.now ≤ caller.expiry) :
    Orderly { d with nextTicket := d.nextTicket + 1, waiting := d.waiting ++ [caller] } := by
  have hcallers : ({ d with nextTicket := d.nextTicket + 1, waiting := d.waiting ++ [caller] } :
      Desk τ).callers = d.callers ++ [caller] := (List.append_assoc ..).symm
  constructor
  case in_line =>
    rw [hcallers, List.map_append, List.pairwise_append]
    refine ⟨horderly.in_line, List.pairwise_singleton .., ?_⟩
    intro ticket hmem other hother
    obtain ⟨earlier, hearlier, rfl⟩ := List.mem_map.1 hmem
    obtain rfl : other = d.nextTicket := (List.mem_singleton.1 hother).trans hticket
    exact horderly.lt_nextTicket hearlier
  case everyone =>
    rw [hcallers, List.map_append, ← List.append_assoc, List.range_succ, List.map_singleton,
      hticket]
    exact horderly.everyone.append_right _
  case patient =>
    intro other hother
    rw [hcallers, List.mem_append] at hother
    rcases hother with hold | hnew
    · exact horderly.patient other hold
    · rwa [List.mem_singleton.1 hnew]
  case past => exact horderly.past
  case closed => exact fun hnot => absurd (hnot.symm.trans htakes) Bool.false_ne_true

/-- Whatever happens at an orderly desk, it stays orderly. -/
theorem step (horderly : d.Orderly) (hstep : Step d d') : d'.Orderly := by
  have hnodup : (d.callers.map (·.ticket)).Nodup := horderly.in_line.imp Nat.ne_of_lt
  rw [callers, List.map_append, List.nodup_append] at hnodup
  cases hstep with
  | @giveRoom first rest hwaiting =>
      have hsame : ({ d with admitted := d.admitted ++ first, waiting := rest } : Desk τ).callers =
          d.callers := by
        simp [callers, hwaiting]
      refine horderly.of_answered [] rfl rfl (List.append_nil _).symm ?_ .inl nofun ?_
      · rw [hsame]
      · rw [hsame]
        exact .refl _
  | enterAll =>
      refine horderly.of_answered _ rfl rfl rfl (List.sublist_append_right ..) .inl ?_ ?_
      · simp
      · simp [callers, Function.comp_def]
  | @enter caller hcaller hexpiry =>
      refine horderly.of_answered _ rfl rfl rfl (List.filter_sublist.append_right _) .inl ?_ ?_
      · simp
      · have hout := Tally.cons_filter_ne_perm (·.ticket) hnodup.1 hcaller
        simpa [callers] using (hout.map (·.ticket)).append_right (d.waiting.map (·.ticket))
  | @leave caller hcaller hexpiry =>
      refine horderly.of_answered _ rfl rfl rfl (List.filter_sublist.append_left _) .inl ?_ ?_
      · simp
      · have hout := Tally.cons_filter_ne_perm (·.ticket) hnodup.2.1 hcaller
        have hback := (hout.map (·.ticket)).append_left (d.admitted.map (·.ticket))
        simpa [callers] using List.perm_middle.symm.trans hback
  | answer _ result => exact horderly.answer result
  | wait _ htakes hticket hexpiry => exact horderly.wait htakes hticket hexpiry
  | shut hadmitted =>
      have hnobody : ({ d with isOpen := false, waiting := [] } : Desk τ).callers = [] := by
        simp [callers, hadmitted]
      refine horderly.of_answered _ rfl rfl rfl ?_ (fun _ => .inr hnobody) ?_ ?_
      · exact (List.Sublist.refl _).append (List.nil_sublist _)
      · simp
      · simp [callers, hadmitted, Function.comp_def]
  | desert hlost =>
      refine horderly.of_answered _ rfl rfl rfl (List.nil_sublist _) (fun _ => .inr rfl) ?_ ?_
      · simp
      · simp [callers, Function.comp_def]
  | clock hadmitted hlater hpatient =>
      refine ⟨horderly.in_line, horderly.everyone, ?_, ?_, horderly.closed⟩
      · intro caller hcaller
        apply hpatient
        simpa [callers, hadmitted] using hcaller
      · exact fun answer hanswer => (horderly.past answer hanswer).trans hlater

end Orderly

/-! ## One caller -/

/-- An answer to a caller with some patience, from a desk that is open or not and whose last worker
may have been lost. -/
inductive Timely (isOpen : Bool) (lostAt : Option Nat) (expiry : Nat) : Answer → Prop
  | entered {instant ticket : Nat} (hbefore : instant ≤ expiry)
      (hlost : ∀ lost ∈ lostAt, instant ≤ lost) :
      Timely isOpen lostAt expiry ⟨instant, ticket, .ok ()⟩
  | late {ticket : Nat} (hlost : ∀ lost ∈ lostAt, expiry ≤ lost) :
      Timely isOpen lostAt expiry ⟨expiry, ticket, .error .timeout⟩
  | shutOut {instant ticket : Nat} (hclosed : isOpen = false ∨ lostAt = some instant)
      (hbefore : instant ≤ expiry) :
      Timely isOpen lostAt expiry ⟨instant, ticket, .error .shutdown⟩

/-- What was answered in time stays so. -/
theorem Timely.mono {answer : Answer} (htimely : Timely d.isOpen d.lostAt expiry answer)
    (hpast : answer.instant ≤ d.now) (hlast : Lasts d d') :
    Timely d'.isOpen d'.lostAt expiry answer := by
  have hlost : ∀ {instant : Nat}, instant ≤ d.now → (∀ lost ∈ d.lostAt, instant ≤ lost) →
      ∀ lost ∈ d'.lostAt, instant ≤ lost := by
    intro instant hnow hbefore lost hmem
    rcases hlast.lost with hsame | ⟨-, again, hsome, hlater⟩
    · exact hbefore lost (hsame ▸ hmem)
    · rw [hsome] at hmem
      cases hmem
      exact hnow.trans hlater
  cases htimely with
  | entered hbefore hstaffed => exact .entered hbefore (hlost hpast hstaffed)
  | late hstaffed => exact .late (hlost hpast hstaffed)
  | shutOut hshut hbefore => exact .shutOut (hshut.imp hlast.closed hlast.lostAt_eq) hbefore

/-- What has become of a caller with some patience: it stands in line, or has been answered in
time. -/
inductive Tracks (ticket expiry : Nat) (d : Desk τ) : Prop
  | waits {caller : Waiting τ} (hcaller : caller ∈ d.callers) (hticket : caller.ticket = ticket)
      (hexpiry : caller.expiry = expiry)
  | answered {answer : Answer} (hanswer : answer ∈ d.answers) (hticket : answer.ticket = ticket)
      (htimely : Timely d.isOpen d.lostAt expiry answer)

/-- Everybody in line with the ticket of a caller who is tracked has the patience of that caller. -/
theorem Tracks.expiry_eq (htracks : Tracks ticket expiry d) (horderly : d.Orderly)
    {caller : Waiting τ} (hcaller : caller ∈ d.callers) (hticket : caller.ticket = ticket) :
    caller.expiry = expiry := by
  cases htracks with
  | waits hother hsame hexpiry =>
      rw [horderly.caller_unique hcaller hother (hticket.trans hsame.symm)]
      exact hexpiry
  | answered hanswer hsame =>
      exact absurd (hsame.trans hticket.symm) (horderly.unanswered hcaller _ hanswer)

/-- Each caller in line stays there, or is answered in time now. -/
theorem Step.tracks_of_waits (hstep : Step d d') (horderly : d.Orderly) {caller : Waiting τ}
    (hcaller : caller ∈ d.callers) : Tracks caller.ticket caller.expiry d' := by
  have hpatient := horderly.patient caller hcaller
  have hstaffed : d.lostAt = none := by
    by_contra hlost
    have hnot : d.takes = false := by
      cases hlostAt : d.lostAt with
      | none => exact absurd hlostAt hlost
      | some => simp [takes, hlostAt]
    rw [horderly.closed hnot] at hcaller
    cases hcaller
  have hstays : ∀ {left : List (Waiting τ)} {other : Nat}, caller ∈ left → caller.ticket ≠ other →
      caller ∈ left.filter (·.ticket ≠ other) := by
    intro left other hmem hother
    exact List.mem_filter.2 ⟨hmem, by simpa using hother⟩
  cases hstep with
  | giveRoom hwaiting =>
      refine .waits ?_ rfl rfl
      simpa [callers, hwaiting] using hcaller
  | enterAll =>
      rcases List.mem_append.1 hcaller with hadmitted | hwaits
      · exact .answered (List.mem_append_right _ (List.mem_map_of_mem hadmitted)) rfl
          (.entered hpatient (by simp [hstaffed]))
      · exact .waits (List.mem_append_right _ hwaits) rfl rfl
  | @enter other hother hexpiry =>
      by_cases hsame : caller.ticket = other.ticket
      · rw [hsame]
        exact .answered (List.mem_append_right _ List.mem_cons_self) rfl
          (.entered hpatient (by simp [hstaffed]))
      · rcases List.mem_append.1 hcaller with hadmitted | hwaits
        · exact .waits (List.mem_append_left _ (hstays hadmitted hsame)) rfl rfl
        · exact .waits (List.mem_append_right _ hwaits) rfl rfl
  | @leave other hother hexpiry =>
      by_cases hsame : caller.ticket = other.ticket
      · obtain rfl := horderly.caller_unique hcaller (List.mem_append_right _ hother) hsame
        obtain hnow : d.now = caller.expiry := Nat.le_antisymm hpatient hexpiry
        rw [hnow]
        exact .answered (List.mem_append_right _ List.mem_cons_self) rfl
          (.late (by simp [hstaffed]))
      · rcases List.mem_append.1 hcaller with hadmitted | hwaits
        · exact .waits (List.mem_append_left _ hadmitted) rfl rfl
        · exact .waits (List.mem_append_right _ (hstays hwaits hsame)) rfl rfl
  | answer => exact .waits hcaller rfl rfl
  | wait =>
      refine .waits ?_ rfl rfl
      rw [callers, ← List.append_assoc]
      exact List.mem_append_left _ hcaller
  | shut hadmitted =>
      have hwaits : caller ∈ d.waiting := by simpa [callers, hadmitted] using hcaller
      exact .answered (List.mem_append_right _ (List.mem_map_of_mem hwaits)) rfl
        (.shutOut (.inl rfl) hpatient)
  | desert =>
      exact .answered (List.mem_append_right _ (List.mem_map_of_mem hcaller)) rfl
        (.shutOut (.inr rfl) hpatient)
  | clock => exact .waits hcaller rfl rfl

theorem Tracks.step (htracks : Tracks ticket expiry d) (horderly : d.Orderly)
    (hstep : Step d d') : Tracks ticket expiry d' := by
  have hlast := hstep.lasts
  cases htracks with
  | waits hcaller hticket hexpiry =>
      rw [← hticket, ← hexpiry]
      exact hstep.tracks_of_waits horderly hcaller
  | answered hanswer hticket htimely =>
      exact .answered (hlast.answers.subset hanswer) hticket
        (htimely.mono (horderly.past _ hanswer) hlast)

/-! ## In turn -/

/-- A caller who has been overtaken at an instant is let in at the same instant, or turned away by
the loss of the last worker. -/
def Follows (lostAt : Option Nat) (rest : List Answer) (instant earlier : Nat) : Prop :=
  ⟨instant, earlier, .ok ()⟩ ∈ rest ∨
    lostAt = some instant ∧ ⟨instant, earlier, .error .shutdown⟩ ∈ rest

/-- Whoever was let in had everybody before it answered before. A caller at the end of its patience
may be let in ahead of others, and `ends` says when that is; they follow at the same instant, or
have been given room and it is that instant still. -/
def InTurn (ends : Nat → Nat → Prop) (d : Desk τ) : Prop :=
  ∀ past instant ticket rest, d.answers = past ++ ⟨instant, ticket, .ok ()⟩ :: rest →
    ∀ earlier < ticket, (∃ answer ∈ past, answer.ticket = earlier) ∨
      ends ticket instant ∧ (Follows d.lostAt rest instant earlier ∨
        d.now = instant ∧ ∃ caller ∈ d.admitted, caller.ticket = earlier)

variable {ends : Nat → Nat → Prop}

/-- Answers are in turn if the old ones were, the new ones are, and those who have been given room
are let in or keep it. -/
theorem InTurn.of_answers (hturn : InTurn ends d) (hlast : Lasts d d') (new : List Answer)
    (hanswers : d'.answers = d.answers ++ new)
    (hadmitted : ∀ caller ∈ d.admitted, Follows d'.lostAt new d.now caller.ticket ∨
      d'.now = d.now ∧ ∃ other ∈ d'.admitted, other.ticket = caller.ticket)
    (hnew : ∀ between instant ticket rest, new = between ++ ⟨instant, ticket, .ok ()⟩ :: rest →
      ∀ earlier < ticket, (∃ answer ∈ d.answers ++ between, answer.ticket = earlier) ∨
        ends ticket instant ∧ d'.now = instant ∧ ∃ caller ∈ d'.admitted, caller.ticket = earlier) :
    InTurn ends d' := by
  intro past instant ticket rest hsplit earlier hearlier
  rw [hanswers] at hsplit
  rcases split_append hsplit with ⟨before, hold⟩ | ⟨between, rfl, hlater⟩
  · obtain rfl : rest = before ++ new := by simpa [hold] using hsplit.symm
    rcases hturn past instant ticket before hold earlier hearlier with
      hpast | ⟨hends, hafter | ⟨rfl, caller, hcaller, rfl⟩⟩
    · exact .inl hpast
    · exact .inr ⟨hends, .inl (hafter.imp (List.mem_append_left _) fun ⟨hlost, hrefused⟩ =>
        ⟨hlast.lostAt_eq hlost, List.mem_append_left _ hrefused⟩)⟩
    · exact .inr ⟨hends, (hadmitted caller hcaller).imp_left (.imp (List.mem_append_right _)
        fun ⟨hlost, hrefused⟩ => ⟨hlost, List.mem_append_right _ hrefused⟩)⟩
  · exact (hnew between instant ticket rest hlater earlier hearlier).imp id
      fun ⟨hends, hgiven⟩ => ⟨hends, .inr hgiven⟩

/-- Those who have been given room and go in together do so in line. -/
theorem Orderly.in_turn_enterAll (horderly : d.Orderly) {between rest : List Answer}
    {instant ticket : Nat}
    (hsplit : (d.admitted.map fun caller => (⟨d.now, caller.ticket, .ok ()⟩ : Answer)) =
      between ++ ⟨instant, ticket, .ok ()⟩ :: rest) {earlier : Nat} (hearlier : earlier < ticket) :
    ∃ answer ∈ d.answers ++ between, answer.ticket = earlier := by
  obtain ⟨front, others, hadmitted, rfl, hothers⟩ := List.map_eq_append_iff.1 hsplit
  obtain ⟨caller, back, rfl, hcaller, -⟩ := List.map_eq_cons_iff.1 hothers
  obtain rfl : caller.ticket = ticket := congrArg Answer.ticket hcaller
  have hmem : caller ∈ d.admitted := by simp [hadmitted]
  rcases horderly.answered_or_admitted hmem hearlier with ⟨answer, hanswer, hticket⟩ |
    ⟨other, hother, rfl⟩
  · exact ⟨answer, List.mem_append_left _ hanswer, hticket⟩
  · rw [hadmitted, List.mem_append] at hother
    rcases hother with hbefore | hafter
    · exact ⟨_, List.mem_append_right _ (List.mem_map_of_mem hbefore), rfl⟩
    · have hline := horderly.in_line
      rw [callers, hadmitted, List.append_assoc, List.map_append, List.pairwise_append,
        List.cons_append, List.map_cons, List.pairwise_cons] at hline
      have hbehind : caller.ticket ≤ other.ticket := by
        rcases List.mem_cons.1 hafter with rfl | hback
        · exact Nat.le_refl _
        · exact Nat.le_of_lt (hline.2.1.1 _ (List.mem_map_of_mem (List.mem_append_left _ hback)))
      exact absurd hearlier (Nat.not_lt.2 hbehind)

/-- Whatever happens at a desk, callers are let in in turn. -/
theorem InTurn.step (hturn : InTurn ends d) (horderly : d.Orderly)
    (hends : ∀ caller ∈ d.callers, ends caller.ticket caller.expiry) (hstep : Step d d') :
    InTurn ends d' := by
  have hmem : ∀ {new between rest : List Answer} {answer : Answer},
      new = between ++ answer :: rest → answer ∈ new := by
    rintro new between rest answer rfl
    exact List.mem_append_right _ List.mem_cons_self
  have hlast := hstep.lasts
  cases hstep with
  | giveRoom =>
      refine hturn.of_answers hlast [] (List.append_nil _).symm ?_ (by simp)
      intro caller hcaller
      exact .inr ⟨rfl, caller, List.mem_append_left _ hcaller, rfl⟩
  | enterAll =>
      refine hturn.of_answers hlast _ rfl ?_ ?_
      · intro caller hcaller
        exact .inl (.inl (List.mem_map_of_mem hcaller))
      · intro between instant ticket rest hsplit earlier hearlier
        exact .inl (horderly.in_turn_enterAll hsplit hearlier)
  | @enter caller hcaller hexpiry =>
      have hstays : ∀ other ∈ d.admitted, other.ticket ≠ caller.ticket →
          other ∈ d.admitted.filter (·.ticket ≠ caller.ticket) := by
        intro other hother hne
        exact List.mem_filter.2 ⟨hother, by simpa using hne⟩
      refine hturn.of_answers hlast _ rfl ?_ ?_
      · intro other hother
        by_cases hsame : other.ticket = caller.ticket
        · left
          left
          simp [hsame]
        · exact .inr ⟨rfl, other, hstays other hother hsame, rfl⟩
      · intro between instant ticket rest hsplit earlier hearlier
        cases List.mem_singleton.1 (hmem hsplit)
        have hline : caller ∈ d.callers := List.mem_append_left _ hcaller
        have hnow : caller.expiry = d.now :=
          Nat.le_antisymm hexpiry (horderly.patient caller hline)
        rcases horderly.answered_or_admitted hcaller hearlier with ⟨answer, hanswer, hticket⟩ |
          ⟨other, hother, rfl⟩
        · exact .inl ⟨answer, List.mem_append_left _ hanswer, hticket⟩
        · exact .inr ⟨hnow ▸ hends caller hline, rfl, other,
            hstays other hother (Nat.ne_of_lt hearlier), rfl⟩
  | leave =>
      refine hturn.of_answers hlast _ rfl ?_ ?_
      · intro other hother
        exact .inr ⟨rfl, other, hother, rfl⟩
      · intro between instant ticket rest hsplit
        cases List.mem_singleton.1 (hmem hsplit)
  | answer hadmitted result hok =>
      refine hturn.of_answers hlast _ rfl ?_ ?_
      · simp [hadmitted]
      · intro between instant ticket rest hsplit earlier hearlier
        cases List.mem_singleton.1 (hmem hsplit)
        have hnobody : d.callers = [] := by simp [callers, hadmitted, hok rfl]
        rcases horderly.answered_or_in_line hearlier with ⟨answer, hanswer, hticket⟩ |
          ⟨other, hother, -⟩
        · exact .inl ⟨answer, List.mem_append_left _ hanswer, hticket⟩
        · rw [hnobody] at hother
          cases hother
  | wait hadmitted =>
      refine hturn.of_answers hlast [] (List.append_nil _).symm ?_ (by simp)
      simp [hadmitted]
  | shut hadmitted =>
      refine hturn.of_answers hlast _ rfl ?_ ?_
      · simp [hadmitted]
      · intro between instant ticket rest hsplit
        obtain ⟨caller, -, hrefused⟩ := List.mem_map.1 (hmem hsplit)
        cases hrefused
  | desert hlost =>
      refine hturn.of_answers hlast _ rfl ?_ ?_
      · intro caller hcaller
        exact .inl (.inr ⟨rfl, List.mem_map_of_mem (List.mem_append_left _ hcaller)⟩)
      · intro between instant ticket rest hsplit
        obtain ⟨caller, -, hrefused⟩ := List.mem_map.1 (hmem hsplit)
        cases hrefused
  | clock hadmitted =>
      refine hturn.of_answers hlast [] (List.append_nil _).symm ?_ (by simp)
      simp [hadmitted]

/-! ## Any number of things -/

/-- The desk is orderly, and everybody is let in in turn. -/
structure Fair (d : Desk τ) : Prop where
  orderly : d.Orderly
  in_turn : InTurn (fun _ _ => True) d

theorem Fair.steps (hfair : d.Fair) (hsteps : Steps d d') : d'.Fair := by
  induction hsteps with
  | refl => exact hfair
  | tail _ hstep ih =>
      exact ⟨ih.orderly.step hstep, ih.in_turn.step ih.orderly (fun _ _ => trivial) hstep⟩

/-- A caller with some patience is served: it is answered in time, and nobody but this caller at
the end of its patience goes in ahead of others. -/
structure Serves (ticket expiry : Nat) (d : Desk τ) : Prop where
  orderly : d.Orderly
  tracks : Tracks ticket expiry d
  in_turn : InTurn (fun other instant => other = ticket → instant = expiry) d

/-- Nobody answers a caller who is served but in time. -/
theorem Serves.timely (hserves : Serves ticket expiry d) {answer : Answer}
    (hanswer : answer ∈ d.answers) (hticket : answer.ticket = ticket) :
    Timely d.isOpen d.lostAt expiry answer := by
  cases hserves.tracks with
  | waits hcaller hsame =>
      exact absurd (hticket.trans hsame.symm) (hserves.orderly.unanswered hcaller _ hanswer)
  | answered hother hsame htimely =>
      rwa [hserves.orderly.answer_unique hanswer hother (hticket.trans hsame.symm)]

theorem Serves.steps (hserves : Serves ticket expiry d) (hsteps : Steps d d') :
    Serves ticket expiry d' := by
  induction hsteps with
  | refl => exact hserves
  | tail _ hstep ih =>
      have hturn := ih.in_turn.step ih.orderly
        (fun caller hcaller hticket => ih.tracks.expiry_eq ih.orderly hcaller hticket) hstep
      exact ⟨ih.orderly.step hstep, ih.tracks.step ih.orderly hstep, hturn⟩

end Desk

end Upkeep.Pool
