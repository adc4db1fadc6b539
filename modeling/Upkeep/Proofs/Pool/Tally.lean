/-
# Where the tickets are

Every submission has a ticket, and a pool can be asked where each ticket is: with a task in the
queue, with a caller who waits, with a started task, or with a task that was refused or dropped. A
tally is a pool of which nothing is left but the tickets. What can happen to a tally is said once,
by `Tally.Step`, and the books of a tally are kept by every step: each ticket that was handed out
is in one place, tasks are started in the order in which they were accepted, started tasks run or
have ended, tasks are dropped only when the last worker is lost, and neither the workers nor the
room in the queue is ever exceeded.
-/

import Mathlib.Data.List.Nodup
import Mathlib.Data.List.Range
import Upkeep.Proofs.Pool.Step

namespace Upkeep.Pool

variable {τ σ ω ε : Type}

/-- The task that an event is the acceptance of. -/
def Event.accepted? : Event ε → Option Nat
  | .accepted ticket => some ticket
  | _ => none

/-- The task that an event is the refusal of. -/
def Event.refused? : Event ε → Option Nat
  | .refused ticket _ => some ticket
  | _ => none

/-- The task that an event is the end of. -/
def Event.ended? : Event ε → Option Nat
  | .ended ticket => some ticket
  | _ => none

/-- What stands in a list that has been added to is old or new. -/
theorem split_append {α : Type} {xs more earlier later : List α} {x : α}
    (hsplit : xs ++ more = earlier ++ x :: later) :
    (∃ rest, xs = earlier ++ x :: rest) ∨
      ∃ between, earlier = xs ++ between ∧ more = between ++ x :: later := by
  rcases List.append_eq_append_iff.1 hsplit with hnew | ⟨rest, hold, hmore⟩
  · exact .inr hnew
  · cases rest with
    | nil => exact .inr ⟨[], by simpa using hold.symm, hmore.symm⟩
    | cons first rest =>
        cases hmore
        exact .inl ⟨rest, hold⟩

/-! ## Tallies -/

/-- The tickets of a pool, by what has become of them, each list in the order in which it
happened. -/
structure Tally where
  accepted : List Nat
  refused : List Nat
  started : List Nat
  ended : List Nat
  queue : List Nat
  /-- The tickets of the callers who have been given room. -/
  admitted : List Nat
  waiting : List Nat
  running : List Nat
  /-- The tickets of the tasks whose workers have been lost with them. -/
  lost : List Nat
  dropped : List Nat
  nextTicket : Nat

namespace Tally

/-- The tickets that were handed out, by where they are now. -/
def places (t : Tally) : List Nat :=
  t.started ++ (t.dropped ++ (t.queue ++ (t.admitted ++ t.waiting))) ++ t.refused

/-- How much of the room in the queue is taken or given away. -/
def taken (t : Tally) : Nat :=
  t.queue.length + t.admitted.length

/-- Gives room, if there is any, to the first waiting caller. -/
def admitNext (t : Tally) (capacity : Nat) : Tally :=
  match t.waiting with
  | [] => t
  | first :: rest =>
    if t.taken < capacity then { t with waiting := rest, admitted := t.admitted ++ [first] } else t

/-- What can happen to the tickets of a pool. In a turn a task either stays with its worker or
ends, so of the lists `kept` and `finished` one holds its ticket and the other nothing. -/
inductive Step (settings : Settings) : Tally → Tally → Prop
  | takeUp {t : Tally} {first : Nat} {rest kept finished : List Nat}
      (hqueue : t.queue = first :: rest)
      (hidle : t.running.length + t.lost.length < settings.workers)
      (hone : kept ++ finished = [first]) :
      Step settings t
        { admitNext { t with queue := rest } settings.capacity with
          started := t.started ++ [first]
          running := t.running ++ kept
          ended := t.ended ++ finished }
  /-- A worker is lost with a task, and others are left. -/
  | crash {t : Tally} {first : Nat} {rest : List Nat} (hqueue : t.queue = first :: rest)
      (hidle : t.running.length + t.lost.length < settings.workers)
      (hothers : t.lost.length + 1 < settings.workers) :
      Step settings t
        { admitNext { t with queue := rest } settings.capacity with
          started := t.started ++ [first]
          ended := t.ended ++ [first]
          lost := t.lost ++ [first] }
  /-- The last worker is lost with a task. -/
  | desert {t : Tally} {first : Nat} {rest : List Nat} (hqueue : t.queue = first :: rest)
      (hidle : t.running.length + t.lost.length < settings.workers)
      (hlast : settings.workers ≤ t.lost.length + 1) :
      Step settings t
        { t with
          refused := t.refused ++ (t.admitted ++ t.waiting)
          started := t.started ++ [first]
          ended := t.ended ++ [first]
          queue := []
          admitted := []
          waiting := []
          lost := t.lost ++ [first]
          dropped := t.dropped ++ rest }
  | resume {t : Tally} {ticket : Nat} {kept finished : List Nat} (hticket : ticket ∈ t.running)
      (hone : kept ++ finished = [ticket]) :
      Step settings t
        { t with
          running := t.running.filter (· ≠ ticket) ++ kept
          ended := t.ended ++ finished }
  | enterAll (t : Tally) :
      Step settings t
        { t with
          queue := t.queue ++ t.admitted
          accepted := t.accepted ++ t.admitted
          admitted := [] }
  | enter {t : Tally} {ticket : Nat} (hticket : ticket ∈ t.admitted) :
      Step settings t
        { t with
          queue := t.queue ++ [ticket]
          accepted := t.accepted ++ [ticket]
          admitted := t.admitted.filter (· ≠ ticket) }
  | leave {t : Tally} {ticket : Nat} (hticket : ticket ∈ t.waiting) :
      Step settings t
        { t with
          waiting := t.waiting.filter (· ≠ ticket)
          refused := t.refused ++ [ticket] }
  | shut (t : Tally) :
      Step settings t
        { t with
          refused := t.refused ++ (t.admitted ++ t.waiting)
          admitted := []
          waiting := [] }
  | accept {t : Tally} (hthere : t.lost.length < settings.workers)
      (hroom : t.taken < settings.capacity) :
      Step settings t
        { t with
          queue := t.queue ++ [t.nextTicket]
          accepted := t.accepted ++ [t.nextTicket]
          nextTicket := t.nextTicket + 1 }
  | refuse (t : Tally) :
      Step settings t
        { t with
          refused := t.refused ++ [t.nextTicket]
          nextTicket := t.nextTicket + 1 }
  | wait {t : Tally} (hthere : t.lost.length < settings.workers)
      (hfull : settings.capacity ≤ t.taken ∨ t.waiting ≠ []) :
      Step settings t
        { t with
          waiting := t.waiting ++ [t.nextTicket]
          nextTicket := t.nextTicket + 1 }

/-- The books of a pool are in order. -/
structure Sound (settings : Settings) (t : Tally) : Prop where
  /-- Every ticket that was handed out is in one place. -/
  everyone : t.places.Perm (List.range t.nextTicket)
  /-- The accepted tasks are those that were started and, behind them, those that were dropped and
  the queue. -/
  in_order : t.accepted = t.started ++ (t.dropped ++ t.queue)
  /-- A started task runs or has ended. -/
  in_hand : t.started.Perm (t.running ++ t.ended)
  /-- A task that is lost has ended. -/
  lost_ended : t.lost.Sublist t.ended
  busy_le : t.running.length + t.lost.length ≤ settings.workers
  /-- Tasks are dropped for want of workers alone. -/
  dropped_deserted : t.dropped ≠ [] → settings.workers ≤ t.lost.length
  taken_le : t.taken ≤ settings.capacity
  /-- Nobody stands in front of a pool without workers. -/
  front_deserted : settings.workers ≤ t.lost.length →
    t.queue = [] ∧ t.admitted = [] ∧ t.waiting = []
  /-- Callers wait only for want of room. -/
  full_of_waiting : t.waiting ≠ [] → t.taken = settings.capacity

namespace Sound

variable {settings : Settings} {t t' : Tally}

theorem nodup_places (hsound : t.Sound settings) : t.places.Nodup :=
  hsound.everyone.nodup_iff.2 List.nodup_range

theorem lt_nextTicket (hsound : t.Sound settings) {ticket : Nat} (hticket : ticket ∈ t.places) :
    ticket < t.nextTicket :=
  List.mem_range.1 (hsound.everyone.subset hticket)

theorem nodup_started (hsound : t.Sound settings) : t.started.Nodup :=
  (List.nodup_append.1 (List.nodup_append.1 hsound.nodup_places).1).1

theorem nodup_running (hsound : t.Sound settings) : t.running.Nodup :=
  (List.nodup_append.1 (hsound.in_hand.nodup_iff.1 hsound.nodup_started)).1

theorem nodup_callers (hsound : t.Sound settings) : (t.admitted ++ t.waiting).Nodup := by
  have hfront := (List.nodup_append.1 (List.nodup_append.1 hsound.nodup_places).1).2.1
  exact (List.nodup_append.1 (List.nodup_append.1 hfront).2.1).2.1

/-- As long as a worker is left no task has been dropped. -/
theorem dropped_eq_nil (hsound : t.Sound settings)
    (hthere : t.lost.length < settings.workers) : t.dropped = [] := by
  by_contra hdropped
  exact absurd (hsound.dropped_deserted hdropped) (Nat.not_le_of_lt hthere)

end Sound

/-- Where no key occurs twice, one element and those with other keys are all. -/
theorem cons_filter_ne_perm {α : Type} (key : α → Nat) {xs : List α} (hnodup : (xs.map key).Nodup)
    {x : α} (hx : x ∈ xs) : (x :: xs.filter (key · ≠ key x)).Perm xs := by
  obtain ⟨front, back, rfl⟩ := List.append_of_mem hx
  rw [List.map_append, List.map_cons, List.nodup_append, List.nodup_cons] at hnodup
  obtain ⟨-, ⟨hback, -⟩, hapart⟩ := hnodup
  have hfront : front.filter (key · ≠ key x) = front := by
    rw [List.filter_eq_self]
    intro y hy
    simpa using hapart _ (List.mem_map_of_mem hy) _ List.mem_cons_self
  have hrest : back.filter (key · ≠ key x) = back := by
    rw [List.filter_eq_self]
    intro y hy
    have hne : key y ≠ key x := fun hsame => hback (hsame ▸ List.mem_map_of_mem hy)
    simpa using hne
  rw [List.filter_append, List.filter_cons_of_neg (by simp), hfront, hrest]
  exact List.perm_middle.symm

/-- Of a list without repetitions, one element and the others are all. -/
theorem count_filter_ne_add {xs : List Nat} {x : Nat} (hnodup : xs.Nodup) (hx : x ∈ xs)
    (y : Nat) : (xs.filter (· ≠ x)).count y + [x].count y = xs.count y := by
  have hperm := cons_filter_ne_perm id (by simpa using hnodup) hx
  rw [← hperm.count_eq y, List.count_singleton, List.count_cons]
  rfl

/-- Of a list without repetitions, taking one element out leaves one less. -/
theorem length_filter_ne {xs : List Nat} {x : Nat} (hnodup : xs.Nodup) (hx : x ∈ xs) :
    (xs.filter (· ≠ x)).length + 1 = xs.length :=
  (cons_filter_ne_perm id (by simpa using hnodup) hx).length_eq

theorem admitNext_of_nobody {t : Tally} (hnobody : t.waiting = []) (capacity : Nat) :
    t.admitNext capacity = t := by
  rw [admitNext, hnobody]

theorem admitNext_of_waiting {t : Tally} {first : Nat} {rest : List Nat}
    (hwaiting : t.waiting = first :: rest) (capacity : Nat) :
    t.admitNext capacity =
      if t.taken < capacity then { t with waiting := rest, admitted := t.admitted ++ [first] }
      else t := by
  rw [admitNext, hwaiting]

/-- Giving room moves a caller and loses none. -/
theorem admitNext_callers (t : Tally) (capacity : Nat) :
    (t.admitNext capacity).admitted ++ (t.admitNext capacity).waiting =
      t.admitted ++ t.waiting := by
  unfold admitNext
  split
  · rfl
  next first rest hwaiting =>
    split
    · simp [hwaiting]
    · rfl

/-- Giving room changes nothing but where callers are. -/
theorem admitNext_rest (t : Tally) (capacity : Nat) :
    t.admitNext capacity = { t with
      admitted := (t.admitNext capacity).admitted
      waiting := (t.admitNext capacity).waiting } := by
  unfold admitNext
  split
  · rfl
  · split <;> rfl

/-- After a task has left a queue that callers could wait for, the next one of them has its room:
so callers still wait for want of room alone. -/
theorem taken_admitNext {t : Tally} {capacity : Nat} (hlt : t.taken < capacity)
    (hfull : t.waiting ≠ [] → t.taken + 1 = capacity) :
    (t.admitNext capacity).taken ≤ capacity ∧
      ((t.admitNext capacity).waiting ≠ [] → (t.admitNext capacity).taken = capacity) := by
  unfold admitNext
  split
  next hwaiting => exact ⟨Nat.le_of_lt hlt, fun h => absurd hwaiting h⟩
  next first rest hwaiting =>
    have hone : t.taken + 1 = capacity := hfull (by simp [hwaiting])
    rw [if_pos hlt]
    have htaken : ({ t with waiting := rest, admitted := t.admitted ++ [first] } : Tally).taken =
        t.taken + 1 := by
      simp [taken, Nat.add_assoc]
    rw [htaken]
    exact ⟨Nat.le_of_eq hone, fun _ => hone⟩

namespace Sound

variable {settings : Settings} {t t' : Tally}

/-- No step loses a ticket or puts one in a second place. -/
theorem everyone_step (hsound : t.Sound settings) (hstep : Step settings t t') :
    t'.places.Perm (List.range t'.nextTicket) := by
  have hplaces := hsound.everyone.count_eq
  rw [List.perm_iff_count]
  intro ticket
  have hhere := hplaces ticket
  have hvacated := fun rest : List Nat => congrArg (List.count ticket)
    (admitNext_callers { t with queue := rest } settings.capacity)
  cases hstep with
  | @takeUp first rest kept finished hqueue hidle hone =>
      have hcallers := hvacated rest
      rw [admitNext_rest]
      simp only [places, List.count_append, hqueue, List.count_cons, List.count_nil]
        at hhere hcallers ⊢
      omega
  | @crash first rest hqueue =>
      have hcallers := hvacated rest
      rw [admitNext_rest]
      simp only [places, List.count_append, hqueue, List.count_cons, List.count_nil]
        at hhere hcallers ⊢
      omega
  | @desert first rest hqueue =>
      simp only [places, List.count_append, hqueue, List.count_cons, List.count_nil] at hhere ⊢
      omega
  | resume hticket hone => exact hhere
  | enterAll =>
      simp only [places, List.count_append, List.count_nil] at hhere ⊢
      omega
  | @enter moved hticket =>
      have hmoved := count_filter_ne_add
        (List.nodup_append.1 hsound.nodup_callers).1 hticket ticket
      simp only [places, List.count_append] at hhere ⊢
      omega
  | @leave gone hticket =>
      have hgone := count_filter_ne_add
        (List.nodup_append.1 hsound.nodup_callers).2.1 hticket ticket
      simp only [places, List.count_append] at hhere ⊢
      omega
  | shut =>
      simp only [places, List.count_append, List.count_nil] at hhere ⊢
      omega
  | accept | refuse | wait =>
      simp only [places, List.count_append, List.range_succ] at hhere ⊢
      omega

/-- Tasks go to the end of the queue and are taken from its front, and go with it. -/
theorem in_order_step (hsound : t.Sound settings) (hstep : Step settings t t') :
    t'.accepted = t'.started ++ (t'.dropped ++ t'.queue) := by
  have horder := hsound.in_order
  cases hstep with
  | takeUp hqueue hidle | crash hqueue hidle =>
      have hdropped := hsound.dropped_eq_nil (by omega)
      rw [admitNext_rest]
      simp [horder, hqueue, hdropped]
  | desert hqueue hidle =>
      have hdropped := hsound.dropped_eq_nil (by omega)
      simp [horder, hqueue, hdropped]
  | enterAll | enter | accept => simp [horder]
  | resume | leave | shut | refuse | wait => exact horder

/-- Whoever leaves a worker has ended. -/
theorem in_hand_step (hsound : t.Sound settings) (hstep : Step settings t t') :
    t'.started.Perm (t'.running ++ t'.ended) := by
  have hhand := hsound.in_hand.count_eq
  cases hstep with
  | @takeUp first rest kept finished hqueue hidle hone =>
      rw [List.perm_iff_count]
      intro ticket
      have hhere := hhand ticket
      have hturn := congrArg (List.count ticket) hone
      simp only [List.count_append] at hhere hturn ⊢
      omega
  | crash =>
      rw [admitNext_rest, List.perm_iff_count]
      intro ticket
      have hhere := hhand ticket
      simp only [List.count_append] at hhere ⊢
      omega
  | desert =>
      rw [List.perm_iff_count]
      intro ticket
      have hhere := hhand ticket
      simp only [List.count_append] at hhere ⊢
      omega
  | @resume turning kept finished hticket hone =>
      rw [List.perm_iff_count]
      intro ticket
      have hhere := hhand ticket
      have hturn := congrArg (List.count ticket) hone
      have haway := count_filter_ne_add hsound.nodup_running hticket ticket
      simp only [List.count_append] at hhere hturn ⊢
      omega
  | enterAll | enter | leave | shut | accept | refuse | wait => exact hsound.in_hand

/-- A task is taken up only by an idle worker, which may be lost by it. -/
theorem busy_le_step (hsound : t.Sound settings) (hstep : Step settings t t') :
    t'.running.length + t'.lost.length ≤ settings.workers := by
  have hbusy := hsound.busy_le
  cases hstep with
  | takeUp hqueue hidle hone =>
      have hturn := congrArg List.length hone
      rw [admitNext_rest]
      simp only [List.length_append, List.length_singleton] at hturn ⊢
      omega
  | crash hqueue hidle =>
      rw [admitNext_rest]
      simp only [List.length_append, List.length_singleton]
      omega
  | desert hqueue hidle =>
      simp only [List.length_append, List.length_singleton]
      omega
  | resume hticket hone =>
      have hturn := congrArg List.length hone
      have haway := length_filter_ne hsound.nodup_running hticket
      simp only [List.length_append, List.length_singleton] at hturn ⊢
      omega
  | enterAll | enter | leave | shut | accept | refuse | wait => exact hbusy

/-- Whoever is lost is lost at the end of a task. -/
theorem lost_ended_step (hsound : t.Sound settings) (hstep : Step settings t t') :
    t'.lost.Sublist t'.ended := by
  have hlost := hsound.lost_ended
  cases hstep with
  | takeUp =>
      rw [admitNext_rest]
      exact hlost.trans (List.sublist_append_left ..)
  | resume => exact hlost.trans (List.sublist_append_left ..)
  | crash | desert => exact hlost.append (List.Sublist.refl _)
  | enterAll | enter | leave | shut | accept | refuse | wait => exact hlost

/-- Tasks are dropped, and all who stand in front of the workers are gone, once the last worker is
lost. -/
theorem deserted_step (hsound : t.Sound settings) (hstep : Step settings t t') :
    (t'.dropped ≠ [] → settings.workers ≤ t'.lost.length) ∧
      (settings.workers ≤ t'.lost.length →
        t'.queue = [] ∧ t'.admitted = [] ∧ t'.waiting = []) := by
  have hdropped := hsound.dropped_deserted
  have hfront := hsound.front_deserted
  cases hstep with
  | takeUp hqueue hidle =>
      rw [admitNext_rest]
      exact ⟨hdropped, fun hnone : _ ≤ t.lost.length => absurd hnone (by omega)⟩
  | crash hqueue hidle hothers =>
      have hkept := hsound.dropped_eq_nil (by omega)
      rw [admitNext_rest]
      simp only [List.length_append, List.length_singleton, hkept]
      exact ⟨fun h => absurd rfl h, fun hnone => absurd hnone (by omega)⟩
  | desert hqueue hidle hlast =>
      refine ⟨fun _ => ?_, fun _ => ⟨rfl, rfl, rfl⟩⟩
      simpa using hlast
  | resume => exact ⟨hdropped, hfront⟩
  | refuse => exact ⟨hdropped, hfront⟩
  | enterAll =>
      refine ⟨hdropped, fun hnone => ?_⟩
      obtain ⟨hqueue, hadmitted, hwaiting⟩ := hfront hnone
      exact ⟨by simp [hqueue, hadmitted], rfl, hwaiting⟩
  | enter hticket =>
      refine ⟨hdropped, fun hnone => ?_⟩
      rw [(hfront hnone).2.1] at hticket
      cases hticket
  | leave hticket =>
      refine ⟨hdropped, fun hnone => ?_⟩
      rw [(hfront hnone).2.2] at hticket
      cases hticket
  | shut => exact ⟨hdropped, fun hnone => ⟨(hfront hnone).1, rfl, rfl⟩⟩
  | accept hthere | wait hthere =>
      exact ⟨hdropped, fun hnone => absurd hnone (Nat.not_le_of_lt hthere)⟩

/-- No more room is given away than there is, and all of it before a caller has to wait. -/
theorem taken_step (hsound : t.Sound settings) (hstep : Step settings t t') :
    t'.taken ≤ settings.capacity ∧ (t'.waiting ≠ [] → t'.taken = settings.capacity) := by
  have htaken := hsound.taken_le
  have hfull := hsound.full_of_waiting
  have hkeep : t'.taken = t.taken → (t'.waiting ≠ [] → t.waiting ≠ []) →
      t'.taken ≤ settings.capacity ∧ (t'.waiting ≠ [] → t'.taken = settings.capacity) := by
    intro hsame hwaiting
    rw [hsame]
    exact ⟨htaken, hfull ∘ hwaiting⟩
  cases hstep with
  | @takeUp first rest kept finished hqueue hidle hone =>
      have hless : t.taken = ({ t with queue := rest } : Tally).taken + 1 := by
        simp only [taken, hqueue, List.length_cons]
        omega
      exact taken_admitNext (by omega) fun hwaiting => hless ▸ hfull hwaiting
  | @crash first rest hqueue =>
      have hless : t.taken = ({ t with queue := rest } : Tally).taken + 1 := by
        simp only [taken, hqueue, List.length_cons]
        omega
      exact taken_admitNext (by omega) fun hwaiting => hless ▸ hfull hwaiting
  | desert => exact ⟨Nat.zero_le _, fun hwaiting => absurd rfl hwaiting⟩
  | resume | refuse => exact hkeep rfl id
  | enterAll => exact hkeep (by simp [taken]) id
  | enter hticket =>
      have hmoved := length_filter_ne (List.nodup_append.1 hsound.nodup_callers).1 hticket
      apply hkeep _ id
      simp only [taken, List.length_append, List.length_singleton]
      omega
  | leave =>
      apply hkeep rfl
      intro hstill hnobody
      apply hstill
      simp [hnobody]
  | shut =>
      constructor
      · apply Nat.le_trans _ htaken
        simp [taken]
      · exact fun hwaiting => absurd rfl hwaiting
  | accept _ hroom =>
      have hmore : t.queue.length + 1 + t.admitted.length = t.taken + 1 := by
        rw [taken]
        omega
      simp only [taken, List.length_append, List.length_singleton]
      rw [hmore]
      exact ⟨hroom, fun hwaiting => absurd (hfull hwaiting) (Nat.ne_of_lt hroom)⟩
  | wait _ hwait =>
      have hsame : t.taken = settings.capacity := by
        rcases hwait with hnone | hothers
        · exact Nat.le_antisymm htaken hnone
        · exact hfull hothers
      exact ⟨Nat.le_of_eq hsame, fun _ => hsame⟩

/-- Every step keeps the books in order. -/
theorem step (hsound : t.Sound settings) (hstep : Step settings t t') : t'.Sound settings where
  everyone := hsound.everyone_step hstep
  in_order := hsound.in_order_step hstep
  in_hand := hsound.in_hand_step hstep
  lost_ended := hsound.lost_ended_step hstep
  busy_le := hsound.busy_le_step hstep
  dropped_deserted := (hsound.deserted_step hstep).1
  front_deserted := (hsound.deserted_step hstep).2
  taken_le := (hsound.taken_step hstep).1
  full_of_waiting := (hsound.taken_step hstep).2

end Sound

end Tally

/-! ## The tally of a pool -/

namespace Machine

/-- The tickets of the accepted tasks, in order of acceptance. -/
def accepted (m : Machine τ σ ω ε) : List Nat :=
  m.log.filterMap (·.event.accepted?)

/-- The tickets of the refused tasks, in order. -/
def refusals (m : Machine τ σ ω ε) : List Nat :=
  m.log.filterMap (·.event.refused?)

/-- The tickets of the tasks that have ended, in order. -/
def endings (m : Machine τ σ ω ε) : List Nat :=
  m.log.filterMap (·.event.ended?)

/-- The tickets of a pool. -/
def tally (m : Machine τ σ ω ε) : Tally where
  accepted := m.accepted
  refused := m.refusals
  started := m.starts.map (·.1)
  ended := m.endings
  queue := m.queue.map (·.ticket)
  admitted := m.admitted.map (·.ticket)
  waiting := m.waiting.map (·.ticket)
  running := m.running.map (·.ticket)
  lost := m.lost
  dropped := m.dropped
  nextTicket := m.nextTicket

/-- The books of a pool are in order. -/
abbrev Sound (m : Machine τ σ ω ε) : Prop :=
  m.tally.Sound m.settings

/-- A pool whose books are in order is tidy. -/
theorem Sound.tidy {m : Machine τ σ ω ε} (hsound : m.Sound) : m.Tidy := by
  have htickets : m.tickets.Sublist (m.tally.started ++
      (m.tally.dropped ++ (m.tally.queue ++ (m.tally.admitted ++ m.tally.waiting)))) := by
    rw [tickets, frontTickets, callerTickets, List.map_append]
    exact (List.sublist_append_right ..).append_left _
  refine ⟨?_, ?_, hsound.nodup_running, ?_⟩
  · exact (List.nodup_append.1 hsound.nodup_places).1.sublist htickets
  · intro ticket hticket
    exact hsound.lt_nextTicket (List.mem_append_left _ (htickets.subset hticket))
  · intro task htask
    exact hsound.in_hand.symm.subset (List.mem_append_left _ (List.mem_map_of_mem htask))

section Turns

/-- The ticket of a task that stays with its worker after a turn. -/
def kept (ticket : Nat) (turn : Turn σ ω ε) : List Nat :=
  if turn.waits.isSome then [ticket] else []

/-- The ticket of a task that is finished after a turn. -/
def finished (ticket : Nat) (turn : Turn σ ω ε) : List Nat :=
  if turn.waits.isNone then [ticket] else []

theorem kept_append_finished (ticket : Nat) (turn : Turn σ ω ε) :
    kept ticket turn ++ finished ticket turn = [ticket] := by
  unfold kept finished
  cases turn.waits <;> rfl

theorem map_paused (ticket deadline : Nat) (rung : Bool) (place : Nat) (turn : Turn σ ω ε) :
    (paused ticket deadline rung place turn).map (·.ticket) = kept ticket turn := by
  unfold paused kept
  cases turn.waits <;> rfl

/-- What a task says is neither an acceptance nor a refusal, and a task that ends does so once. -/
theorem filterMap_turnEvents (m : Machine τ σ ω ε) (ticket deadline : Nat) (rung : Bool)
    (turn : Turn σ ω ε) :
    (m.turnEvents ticket deadline rung turn).filterMap Event.accepted? = [] ∧
      (m.turnEvents ticket deadline rung turn).filterMap Event.refused? = [] ∧
      (m.turnEvents ticket deadline rung turn).filterMap Event.ended? = finished ticket turn := by
  unfold turnEvents finished
  cases turn.waits <;>
    simp [List.filterMap_append, List.filterMap_map, Function.comp_def, Event.accepted?,
      Event.refused?, Event.ended?]

theorem tally_finishTurn (m : Machine τ σ ω ε) (ticket deadline : Nat) (rung : Bool)
    (place : Nat) (turn : Turn σ ω ε) :
    (m.finishTurn ticket deadline rung place turn).tally =
      { m.tally with
        running := m.tally.running ++ kept ticket turn
        ended := m.tally.ended ++ finished ticket turn } := by
  obtain ⟨ownPlace, nextPlace, heq⟩ := m.finishTurn_eq ticket deadline rung place turn
  obtain ⟨haccepted, hrefused, hended⟩ := m.filterMap_turnEvents ticket deadline rung turn
  have hstarts := (m.tickets_finishTurn ticket deadline rung place turn).1
  rw [tally, hstarts, heq]
  simp [tally, accepted, refusals, endings, List.filterMap_map, map_paused, haccepted,
    hrefused, hended]

end Turns

theorem hasRoom_eq (m : Machine τ σ ω ε) :
    m.hasRoom = decide (m.tally.taken < m.settings.capacity) := by
  simp [hasRoom, tally, Tally.taken]

theorem tally_admitNext (m : Machine τ σ ω ε) :
    m.admitNext.tally = m.tally.admitNext m.settings.capacity := by
  unfold admitNext
  split
  next hnobody => rw [Tally.admitNext_of_nobody (congrArg (List.map _) hnobody)]
  next first rest hwaiting =>
    rw [Tally.admitNext_of_waiting (congrArg (List.map _) hwaiting), hasRoom_eq]
    by_cases hroom : m.tally.taken < m.settings.capacity
    · rw [if_pos (decide_eq_true hroom), if_pos hroom]
      simp [tally, accepted, refusals, starts, endings]
    · rw [if_neg (by simpa using hroom), if_neg hroom]

theorem tally_started (m : Machine τ σ ω ε) (ticket : Nat) (context : Context)
    (nextPlace : Nat) :
    ({ m.note (.started ticket context) with nextPlace } : Machine τ σ ω ε).tally =
      { m.tally with started := m.tally.started ++ [ticket] } := by
  simp [tally, note, accepted, refusals, starts, endings, Event.accepted?, Event.refused?,
    Event.start?, Event.ended?]

theorem tally_enqueue (m : Machine τ σ ω ε) (ticket : Nat) (task : τ) :
    (m.enqueue ticket task).tally =
      { m.tally with
        queue := m.tally.queue ++ [ticket]
        accepted := m.tally.accepted ++ [ticket] } := by
  simp [tally, enqueue, note, accepted, refusals, starts, endings, Event.accepted?,
    Event.refused?, Event.start?, Event.ended?]

theorem tally_refused (m : Machine τ σ ω ε) (ticket : Nat) (error : PoolError) :
    (m.note (.refused ticket error)).tally =
      { m.tally with refused := m.tally.refused ++ [ticket] } := by
  simp [tally, note, accepted, refusals, starts, endings, Event.accepted?, Event.refused?,
    Event.start?, Event.ended?]

theorem tally_closed (m : Machine τ σ ω ε) (result : Except PoolError Unit) :
    (m.note (.closed result)).tally = m.tally := by
  simp [tally, note, accepted, refusals, starts, endings, Event.accepted?, Event.refused?,
    Event.start?, Event.ended?]

/-- The first task of the queue has left it for a worker, who has given it a first turn. -/
theorem tally_firstTurn (m : Machine τ σ ω ε) (rest : List (Queued τ)) (ticket : Nat)
    (rung : Bool) (turn : Turn σ ω ε) :
    ((m.vacate rest).firstTurn ticket rung turn).tally =
      { Tally.admitNext { m.tally with queue := rest.map (·.ticket) } m.settings.capacity with
        started := m.tally.started ++ [ticket]
        running := m.tally.running ++ kept ticket turn
        ended := m.tally.ended ++ finished ticket turn } := by
  have hready : (m.vacate rest).tally =
      Tally.admitNext { m.tally with queue := rest.map (·.ticket) } m.settings.capacity :=
    tally_admitNext { m with queue := rest }
  rw [firstTurn, tally_finishTurn, tally_started, hready, Tally.admitNext_rest]

/-- A pool without workers. -/
theorem tally_desert (m : Machine τ σ ω ε) :
    m.desert.tally =
      { m.tally with
        refused := m.tally.refused ++ (m.tally.admitted ++ m.tally.waiting)
        queue := []
        admitted := []
        waiting := []
        dropped := m.tally.dropped ++ m.tally.queue } := by
  rw [desert_eq]
  simp [noteAll, tally, accepted, refusals, starts, endings, List.filterMap_map,
    Function.comp_def, Event.accepted?, Event.refused?, Event.start?, Event.ended?]

section TakingUp

variable {b : Behaviour τ σ ω ε} {m : Machine τ σ ω ε} {first : Queued τ}
  {rest : List (Queued τ)} (hqueue : m.queue = first :: rest) (hidle : m.hasIdleWorker = true)

include hqueue hidle

theorem tally_queue_idle :
    m.tally.queue = first.ticket :: rest.map (·.ticket) ∧
      m.tally.running.length + m.tally.lost.length < m.settings.workers := by
  refine ⟨congrArg (List.map _) hqueue, ?_⟩
  simpa [hasIdleWorker, tally] using hidle

/-- A worker takes up the first task of the queue. -/
theorem tally_launch :
    Tally.Step m.settings m.tally ((m.vacate rest).launch b first).tally := by
  obtain ⟨hfirst, hfree⟩ := tally_queue_idle hqueue hidle
  rw [launch_eq, tally_firstTurn]
  exact .takeUp hfirst hfree (kept_append_finished ..)

/-- A worker takes up the first task of the queue and is lost with it. -/
theorem tally_crash (wreck : Wreck ω ε) :
    Tally.Step m.settings m.tally ((m.vacate rest).crash first.ticket wreck).tally := by
  obtain ⟨hfirst, hfree⟩ := tally_queue_idle hqueue hidle
  have hwrecked : ((m.vacate rest).wrecked first.ticket wreck).tally =
      { Tally.admitNext { m.tally with queue := rest.map (·.ticket) } m.settings.capacity with
        started := m.tally.started ++ [first.ticket]
        ended := m.tally.ended ++ [first.ticket]
        lost := m.tally.lost ++ [first.ticket] } := by
    have hlost : (m.vacate rest).lost = m.lost := by rw [vacate_eq]
    have hkept : kept first.ticket (wreck.turn (σ := σ)) = [] := rfl
    have hfinished : finished first.ticket (wreck.turn (σ := σ)) = [first.ticket] := rfl
    show { ((m.vacate rest).firstTurn first.ticket false wreck.turn).tally with
      lost := (m.vacate rest).lost ++ [first.ticket] } = _
    rw [tally_firstTurn, hlost, hkept, hfinished, List.append_nil, Tally.admitNext_rest]
    rfl
  have hleft : ((m.vacate rest).wrecked first.ticket wreck).isDeserted =
      decide (m.settings.workers ≤ m.tally.lost.length + 1) := by
    obtain ⟨nextPlace, heq⟩ := m.wrecked_eq rest first.ticket wreck
    rw [heq, isDeserted, List.length_append]
    rfl
  unfold crash
  simp only
  split
  next hdeserted =>
    have hstep := Tally.Step.desert hfirst hfree (of_decide_eq_true (hleft ▸ hdeserted))
    have hcallers := Tally.admitNext_callers { m.tally with queue := rest.map (·.ticket) }
      m.settings.capacity
    rw [tally_desert, hwrecked]
    simp only [hcallers]
    rw [Tally.admitNext_rest]
    exact hstep
  next hothers =>
    rw [hwrecked]
    refine .crash hfirst hfree (Nat.lt_of_not_le fun hlast => hothers ?_)
    rw [hleft]
    exact decide_eq_true hlast

end TakingUp

/-- Taking out whoever has a ticket takes out the ticket. -/
theorem map_filter_ticket {α : Type} (ticketOf : α → Nat) (ticket : Nat) (xs : List α) :
    (xs.filter (ticketOf · ≠ ticket)).map ticketOf = (xs.map ticketOf).filter (· ≠ ticket) := by
  rw [List.filter_map]
  rfl

/-- A started task gets a turn. -/
theorem tally_resume (b : Behaviour τ σ ω ε) {m : Machine τ σ ω ε} {task : Running σ}
    (htask : task ∈ m.running) (cue : Cue) :
    Tally.Step m.settings m.tally (m.resume b task cue).tally := by
  have haway : (m.running.filter (·.ticket ≠ task.ticket)).map (·.ticket) =
      m.tally.running.filter (· ≠ task.ticket) := map_filter_ticket _ _ m.running
  rw [resume, tally_finishTurn]
  have hrunning : task.ticket ∈ m.tally.running := List.mem_map_of_mem htask
  have hstep : Tally.Step m.settings m.tally _ := .resume hrunning
    (kept_append_finished task.ticket
      (b.resume task.state cue (m.context task.deadline task.rung) m.world))
  rw [← haway] at hstep
  exact hstep

/-- A caller whose patience ends puts the task in, or has it refused. -/
theorem tally_callerTurn {m : Machine τ σ ω ε} {caller : Waiting τ}
    (hcaller : caller ∈ m.admitted ++ m.waiting) :
    Tally.Step m.settings m.tally (m.callerTurn caller.ticket).tally := by
  obtain ⟨found, hadmitted, hsame, heq⟩ | ⟨hwaiting, heq⟩ := callerTurn_cases hcaller
  · have hticket : caller.ticket ∈ m.tally.admitted := hsame ▸ List.mem_map_of_mem hadmitted
    have haway : (m.admitted.filter (·.ticket ≠ caller.ticket)).map (·.ticket) =
        m.tally.admitted.filter (· ≠ caller.ticket) := map_filter_ticket _ _ m.admitted
    have hstep : Tally.Step m.settings m.tally _ := .enter hticket
    rw [← haway] at hstep
    rw [heq, tally_enqueue]
    exact hstep
  · have hticket : caller.ticket ∈ m.tally.waiting := List.mem_map_of_mem hwaiting
    have haway : (m.waiting.filter (·.ticket ≠ caller.ticket)).map (·.ticket) =
        m.tally.waiting.filter (· ≠ caller.ticket) := map_filter_ticket _ _ m.waiting
    have hstep : Tally.Step m.settings m.tally _ := .leave hticket
    rw [← haway] at hstep
    rw [heq, tally_refused]
    exact hstep

/-- Work is nothing to the tickets of a pool, or one of the things that can happen to them. -/
theorem tally_work {b : Behaviour τ σ ω ε} {m m' : Machine τ σ ω ε} (hwork : Work b m m') :
    m'.tally = m.tally ∨ Tally.Step m.settings m.tally m'.tally := by
  cases hwork with
  | launch hqueue hidle => exact .inr (tally_launch hqueue hidle)
  | crash hqueue hidle => exact .inr (tally_crash hqueue hidle _)
  | resume htask hcue => exact .inr (tally_resume b htask _)
  | ring ticket =>
      left
      have hrunning : (m.ring ticket).running.map (·.ticket) = m.running.map (·.ticket) := by
        rw [ring, List.map_map]
        exact List.map_congr_left fun task _ => by simp only [Function.comp_apply]; split <;> rfl
      rw [tally, hrunning]
      rfl
  | enterAll =>
      have hstep : Tally.Step m.settings m.tally _ := .enterAll m.tally
      rw [enterAll_eq]
      simpa [tally, accepted, refusals, starts, endings, List.filterMap_map, Function.comp_def,
        Event.accepted?, Event.refused?, Event.start?, Event.ended?] using .inr hstep
  | callerTurn hcaller => exact .inr (tally_callerTurn hcaller)

/-- So is a step of a pool. -/
theorem tally_step {b : Behaviour τ σ ω ε} {m m' : Machine τ σ ω ε} (hstep : Step b m m') :
    m'.tally = m.tally ∨ Tally.Step m.settings m.tally m'.tally := by
  cases hstep with
  | work hwork => exact tally_work hwork
  | finishClosing | giveUp => exact .inl (tally_closed ..)

/-- So is whatever else happens to a pool, submissions apart. -/
theorem tally_change {b : Behaviour τ σ ω ε} {m m' : Machine τ σ ω ε} (hchange : Change b m m') :
    m'.tally = m.tally ∨ Tally.Step m.settings m.tally m'.tally := by
  cases hchange with
  | step hstep => exact tally_step hstep
  | clock | await => exact .inl rfl
  | closed => exact .inl (tally_closed ..)
  | shut =>
      have hstep : Tally.Step m.settings m.tally _ := .shut m.tally
      rw [shut_eq, noteAll]
      simpa [tally, accepted, refusals, starts, endings, List.filterMap_map, Function.comp_def,
        Event.accepted?, Event.refused?, Event.start?, Event.ended?] using .inr hstep

theorem takesTasks_iff {m : Machine τ σ ω ε} :
    m.takesTasks = true ↔ m.isOpen = true ∧ m.lost.length < m.settings.workers := by
  simp [takesTasks, isDeserted]

/-- A submission puts the task in or refuses it. -/
theorem tally_submit (m : Machine τ σ ω ε) (task : τ) :
    Tally.Step m.settings m.tally (m.submit task).2.tally := by
  obtain ⟨htakes, hroom, hsubmit⟩ | ⟨error, -, hsubmit⟩ := m.submit_cases task
  · rw [hsubmit, tally_enqueue]
    rw [hasRoom_eq] at hroom
    exact .accept (takesTasks_iff.1 htakes).2 (of_decide_eq_true hroom)
  · rw [hsubmit, tally_refused]
    exact .refuse m.tally

/-- What comes of a submission that may wait. -/
theorem submitWait_eq (m : Machine τ σ ω ε) (task : τ) (patience : Nat) (inFront : Bool) :
    m.submitWait task patience inFront =
      (m.nextTicket,
        if !m.takesTasks then m.ticketed.note (.refused m.nextTicket .shutdown)
        else if m.hasRoom && m.waiting.isEmpty then m.ticketed.enqueue m.nextTicket task
        else if patience = 0 then m.ticketed.note (.refused m.nextTicket .timeout)
        else
          { m.ticketed with
            waiting := m.waiting ++
              [⟨m.nextTicket, task, m.now + patience, m.placeOf inFront⟩]
            nextPlace := m.nextPlace + 1 }) :=
  rfl

/-- A submission that may wait puts the task in, refuses it, or waits for want of room. -/
theorem tally_submitWait (m : Machine τ σ ω ε) (task : τ) (patience : Nat) (inFront : Bool) :
    Tally.Step m.settings m.tally (m.submitWait task patience inFront).2.tally := by
  rw [submitWait_eq]
  split
  · rw [tally_refused]
    exact .refuse m.tally
  next hrefuses =>
    have hthere : m.tally.lost.length < m.settings.workers :=
      (takesTasks_iff.1 (by simpa using hrefuses)).2
    split
    next henters =>
      rw [hasRoom_eq, Bool.and_eq_true] at henters
      rw [tally_enqueue]
      exact .accept hthere (of_decide_eq_true henters.1)
    next hwaits =>
      split
      · rw [tally_refused]
        exact .refuse m.tally
      · have hfull : m.settings.capacity ≤ m.tally.taken ∨ m.tally.waiting ≠ [] := by
          rw [hasRoom_eq, Bool.and_eq_true, not_and_or, decide_eq_true_eq, Nat.not_lt,
            List.isEmpty_iff] at hwaits
          simpa [tally] using hwaits
        have hstep := Tally.Step.wait hthere hfull
        simpa [tally, ticketed, accepted, refusals, starts, endings] using hstep

end Machine

end Upkeep.Pool
