/-
# Pools at rest

Once a pool has settled nothing more happens in it at that instant: whoever had something to wait
for still has, no task can be put in or taken up, and so nobody gets a turn. Settling it once more
changes nothing at all. That is more than that nothing bad has been left over, and it is what
lets a request that asks the pool for nothing leave it exactly as it was.
-/

import Upkeep.Proofs.Pool.Punctual
import Upkeep.Proofs.Pool.Run

namespace Upkeep.Pool.Machine

variable {τ σ ω ε : Type}

/-- Nothing can happen in a pool before time goes on or somebody asks for something. -/
structure AtRest (m : Machine τ σ ω ε) : Prop where
  settled : m.Settled
  punctual : m.Punctual
  /-- No caller has lost patience. -/
  patient : ∀ caller ∈ m.waiting, m.now < caller.expiry

/-! ## Callers who lose patience -/

section Callers

variable {b : Behaviour τ σ ω ε} {m m' : Machine τ σ ω ε}

/-- Nobody begins to wait for room by what workers and callers do. -/
theorem waiting_subset_of_work (hwork : Work b m m') : m'.waiting ⊆ m.waiting := by
  have hvacate : ∀ rest, (m.vacate rest).waiting ⊆ m.waiting := by
    intro rest
    unfold vacate admitNext
    split
    · exact List.Subset.refl _
    next first rest hwaiting =>
      split
      · exact fun caller hcaller => hwaiting ▸ List.mem_cons_of_mem first hcaller
      · exact List.Subset.refl _
  cases hwork with
  | @launch first rest =>
      obtain ⟨ownPlace, nextPlace, heq⟩ := m.firstTurn_vacate_eq rest first.ticket _ _
      rw [launch_eq, heq]
      exact hvacate rest
  | @crash first rest wreck =>
      refine crash_induction (P := fun after => after.waiting ⊆ m.waiting) ?_ fun _ _ => ?_
      · obtain ⟨nextPlace, heq⟩ := m.wrecked_eq rest first.ticket wreck
        rw [heq]
        exact hvacate rest
      · rw [desert_eq]
        exact List.nil_subset _
  | ring => exact List.Subset.refl _
  | @resume task cue =>
      obtain ⟨ownPlace, nextPlace, heq⟩ := m.resume_eq b task cue
      rw [heq]
      exact List.Subset.refl _
  | enterAll =>
      rw [enterAll_eq]
      exact List.Subset.refl _
  | callerTurn =>
      unfold callerTurn
      split
      · exact List.Subset.refl _
      split
      · exact List.filter_subset_self _
      · exact List.Subset.refl _

theorem waiting_subset_of_works (hworks : Works b m m') : m'.waiting ⊆ m.waiting := by
  induction hworks with
  | refl => exact List.Subset.refl _
  | tail _ hwork ih => exact List.Subset.trans (waiting_subset_of_work hwork) ih

theorem caller_mem_dueParties {caller : Waiting τ} (hcaller : caller ∈ m.waiting)
    (hexpiry : caller.expiry ≤ m.now) : .caller caller.ticket ∈ m.dueParties := by
  apply List.mem_of_mem_filter (p := (!Party.isTask ·))
  apply m.others_dueParties.mem_iff.2
  apply List.mem_append_left
  exact List.mem_map.2 ⟨caller, List.mem_filter.2 ⟨hcaller, decide_eq_true hexpiry⟩, rfl⟩

/-- A caller is gone after its turn. -/
theorem Tidy.not_waiting_callerTurn (htidy : m.Tidy) (ticket : Nat) :
    ∀ caller ∈ (m.callerTurn ticket).waiting, caller.ticket ≠ ticket := by
  have hcallers : m.callerTickets.Nodup := by
    have hfront : m.frontTickets.Nodup := (List.nodup_append.1 htidy.nodup).2.1
    exact (List.nodup_append.1 hfront).2.1
  rw [callerTickets, List.map_append] at hcallers
  intro caller hcaller hticket
  unfold callerTurn at hcaller
  split at hcaller
  next admitted hfind =>
    have hadmitted : ticket ∈ m.admitted.map (·.ticket) := by
      obtain rfl : admitted.ticket = ticket := by simpa using List.find?_some hfind
      exact List.mem_map_of_mem (List.mem_of_find?_eq_some hfind)
    exact (List.nodup_append.1 hcallers).2.2 _ hadmitted _ (List.mem_map_of_mem hcaller)
      hticket.symm
  split at hcaller
  · obtain ⟨-, hne⟩ := List.mem_filter.1 hcaller
    simp [hticket] at hne
  next hgone => exact hgone (List.any_eq_true.2 ⟨caller, hcaller, by simp [hticket]⟩)

/-- After a round every caller who still waits has patience left. -/
theorem Tidy.lt_expiry_round (htidy : m.Tidy) :
    ∀ caller ∈ (m.round b).waiting, m.now < caller.expiry := by
  have hturns := dueParties_induction b htidy
    (P := fun parties between =>
      ∀ caller ∈ between.waiting, caller.expiry ≤ m.now → .caller caller.ticket ∈ parties)
    (fun _ => caller_mem_dueParties) ?_
  · intro caller hcaller
    have hbefore := waiting_subset_of_works (works_follow b _) hcaller
    exact Nat.lt_of_not_le fun hexpiry => List.not_mem_nil (hturns caller hbefore hexpiry)
  · intro party parties between hbetween hawaits hdue caller hcaller hexpiry
    cases party with
    | task ticket =>
        have hmem := waiting_subset_of_works (works_giveTurn_task b between ticket) hcaller
        simpa using hdue caller hmem hexpiry
    | caller ticket =>
        have hmem := waiting_subset_of_works (works_callerTurn b between ticket) hcaller
        have hne := hbetween.not_waiting_callerTurn ticket caller hcaller
        simpa [hne] using hdue caller hmem hexpiry
    | closer =>
        have hsame : (between.giveTurn b .closer).waiting = between.waiting := by
          simp only [giveTurn]
          split <;> rfl
        rw [hsame] at hcaller
        simpa using hdue caller hcaller hexpiry

end Callers

/-! ## Settled pools are at rest -/

/-- A pool that has settled is at rest. -/
theorem Tidy.atRest_settle {m : Machine τ σ ω ε} (htidy : m.Tidy) (b : Behaviour τ σ ω ε) :
    (m.settle b).AtRest where
  settled := settled_settle b m
  punctual := htidy.punctual_settle b
  patient := by
    have hfirst : (m.round b).Tidy := htidy.steps (proceeds_round b htidy).steps
    have hconclude : ∀ n : Machine τ σ ω ε, n.conclude.waiting = n.waiting := by
      intro n
      unfold conclude
      split <;> rfl
    intro caller hcaller
    rw [settle, hconclude] at hcaller
    rw [now_settle, ← now_round b m]
    exact hfirst.lt_expiry_round caller hcaller

namespace AtRest

variable {m : Machine τ σ ω ε} (hrest : m.AtRest) (b : Behaviour τ σ ω ε)

include hrest

/-- Nobody is due in a pool at rest. -/
theorem dueParties_eq : m.dueParties = [] := by
  have hcalm : ∀ task ∈ m.running, m.cue? task = none ∧ m.isAlarmed task = false := by
    intro task htask
    obtain ⟨huncued, hrung⟩ := hrest.punctual.attended task htask
    refine ⟨huncued, ?_⟩
    have hasleep : ¬task.pause.wake.any (· ≤ m.now) = true := by
      intro hwake
      rw [cue?, if_pos hwake] at huncued
      cases huncued
    cases hrings : task.rung with
    | true => simpa [isAlarmed, hrings] using hasleep
    | false =>
        have hahead : m.now < task.deadline := Nat.lt_of_not_le fun hpast => by
          simp [hrung hpast] at hrings
        simpa [isAlarmed, hrings, hahead] using hasleep
  have halarmed : m.alarmedParties = [] := by
    have htasks : m.running.filter m.isAlarmed = [] := by
      rw [List.filter_eq_nil_iff]
      intro task htask
      simp [(hcalm task htask).2]
    have hcallers : (m.waiting.filter fun caller => caller.expiry ≤ m.now) = [] := by
      rw [List.filter_eq_nil_iff]
      intro caller hcaller
      simpa using hrest.patient caller hcaller
    have hcloser : (m.closing.toList.filter fun closing => closing.limit ≤ m.now) = [] := by
      rw [List.filter_eq_nil_iff]
      intro closing hclosing
      simpa using hrest.punctual.ahead closing (Option.mem_toList.1 hclosing)
    rw [alarmedParties, htasks, hcallers, hcloser]
    rfl
  have hcancelled : m.cancelledParties = [] := by
    rw [cancelledParties, List.map_eq_nil_iff, List.filter_eq_nil_iff]
    intro task htask
    simp [(hcalm task htask).1]
  simp [dueParties, halarmed, hcancelled]

/-- Nothing follows by itself in a pool at rest. -/
theorem follow_eq : m.follow b = m := by
  have henter : m.enterAll = m := by
    have hnobody := hrest.settled.nobody_enters
    obtain ⟨settings, world, circumstances, now, nextTicket, nextPlace, isOpen, gaveUp, closing,
      queue, admitted, waiting, running, lost, dropped, log⟩ := m
    simp only at hnobody
    simp [enterAll_eq, hnobody]
  have hfill : m.fill b = m := by
    rw [fill]
    split
    · rfl
    next first rest hqueue =>
      rw [if_neg]
      simp [hrest.settled.nobody_idles (by simp [hqueue])]
  rw [follow, henter, hfill]
  exact dif_pos hrest.settled.nobody_enters

theorem round_eq : m.round b = m := by
  rw [round, hrest.dueParties_eq]
  exact hrest.follow_eq b

/-- Settling a pool at rest changes nothing. -/
theorem settle_eq : m.settle b = m := by
  rw [settle, hrest.round_eq b, hrest.round_eq b, conclude, if_neg]
  rw [Bool.and_eq_true, not_and]
  intro hclosing
  simp [hrest.punctual.undrained hclosing]

/-- What the tasks share is nothing that a pool at rest waits for. -/
theorem withWorld (world : ω) : AtRest { m with world } :=
  ⟨⟨hrest.settled.nobody_enters, hrest.settled.nobody_idles⟩,
    ⟨hrest.punctual.ahead, hrest.punctual.undrained, fun task htask =>
      ⟨(hrest.punctual.attended task htask).uncued, (hrest.punctual.attended task htask).rung⟩⟩,
    hrest.patient⟩

/-- Nor are the tickets that were handed out. -/
theorem ticketed : m.ticketed.AtRest :=
  ⟨⟨hrest.settled.nobody_enters, hrest.settled.nobody_idles⟩,
    ⟨hrest.punctual.ahead, hrest.punctual.undrained, fun task htask =>
      ⟨(hrest.punctual.attended task htask).uncued, (hrest.punctual.attended task htask).rung⟩⟩,
    hrest.patient⟩

/-- Nor is what was written down. -/
theorem note (event : Event ε) : (m.note event).AtRest :=
  ⟨⟨hrest.settled.nobody_enters, hrest.settled.nobody_idles⟩,
    ⟨hrest.punctual.ahead, hrest.punctual.undrained, fun task htask =>
      ⟨(hrest.punctual.attended task htask).uncued, (hrest.punctual.attended task htask).rung⟩⟩,
    hrest.patient⟩

end AtRest

/-! ## Runs -/

section Runs

variable {b : Behaviour τ σ ω ε} {m : Machine τ σ ω ε}

/-- After any call the pool is at rest, if it has been before. -/
theorem AtRest.perform (hrest : m.AtRest) (hsound : m.Sound) (call : Call τ σ ω) :
    (m.perform b call).AtRest := by
  cases call with
  | submit task =>
      have hasked := hsound.happening (.submit (b := b) m task)
      exact hasked.tidy.atRest_settle b
  | submitWait task patience inFront =>
      have hasked := hsound.happening (.submitWait (b := b) m task patience inFront)
      exact hasked.tidy.atRest_settle b
  | close patience inFront =>
      show (m.close b patience inFront).AtRest
      rw [close_eq]
      split
      · have hshut : m.shut.Tidy := hsound.tidy.change (b := b) (.shut m)
        apply Tidy.atRest_settle
        split
        · exact hshut.change (b := b) (.step (.giveUp m.shut))
        · exact hshut.change (b := b) (.await ..)
      · exact hrest.note _
  | pass span =>
      have hpasses : (m.pass b span).Sound ∧ (m.pass b span).AtRest := by
        refine (line b).runTo_induction (P := fun between => between.Sound ∧ between.AtRest) ?_
          ⟨hsound, hrest⟩
        intro between instant hbetween _ _
        have hlater := hbetween.1.happening (.change (b := b) (.clock between instant))
        exact ⟨hlater.reaches (reaches_settle hlater), hlater.tidy.atRest_settle b⟩
      exact hpasses.2
  | release free chosen =>
      have hshared := hsound.happening (.share (b := b) m (free m.world))
      have hreleased := hshared.tidy.steps (works_released b hshared.tidy chosen).proceeds.steps
      exact hreleased.atRest_settle b

/-- So it is after a run. -/
theorem AtRest.run (hrest : m.AtRest) (hsound : m.Sound) (calls : List (Call τ σ ω)) :
    (m.run b calls).AtRest := by
  induction calls generalizing m with
  | nil => exact hrest
  | cons call calls ih =>
      exact ih (hrest.perform hsound call) (hsound.reaches (reaches_perform hsound call))

end Runs

theorem atRest_fresh (settings : Settings) (world : ω) (circumstances : Circumstances) :
    (fresh settings world circumstances : Machine τ σ ω ε).AtRest :=
  ⟨⟨rfl, fun hwaits => absurd rfl hwaits⟩, ⟨nofun, nofun, nofun⟩, nofun⟩

end Upkeep.Pool.Machine
