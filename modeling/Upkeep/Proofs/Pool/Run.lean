/-
# Runs of a worker pool

A run is a list of calls: tasks are submitted, the pool is closed, time passes, and whatever the
tasks share is changed from outside, perhaps to release some of them. After each call everything
happens that can happen at that instant; then the pool is settled. A call that is waited for in
the foreground is that call and as much time as it takes, so runs need no calls of that kind.

Between two settled states a pool passes through others. `Happening` says what can happen to a
pool at all, one thing at a time, and `Reaches` is any number of such things. Whatever a run comes
to is reached, and the books of a pool are in order in all states that it reaches.
-/

import Upkeep.Proofs.Pool.Loops
import Upkeep.Proofs.Pool.Tally

namespace Upkeep

/-! ## Stopping early -/

namespace Timeline

variable {α : Type}

/-- Running never goes back. -/
theorem now_le_now_runTo (line : Timeline α) (halt : α → Bool) (target : Nat) (x : α) :
    line.now x ≤ line.now (line.runTo halt target x) := by
  refine line.runTo_induction (P := fun y => line.now x ≤ line.now y) ?_ (Nat.le_refl _)
  intro y instant hpast hahead _
  rw [line.now_arrive]
  omega

/-- What every arrival at the next stop keeps is kept by the whole run. -/
theorem runTo_induction_nextStop (line : Timeline α) {halt : α → Bool} {target : Nat}
    {P : α → Prop}
    (hstop : ∀ x, P x → line.now x < target → P (line.arrive (line.nextStop target x) x)) {x : α}
    (h : P x) : P (line.runTo halt target x) := by
  fun_induction line.runTo halt target x with
  | case1 x hcond ih => exact ih (hstop x h hcond.2)
  | case2 => exact h

/-- Nor does it go past its target. -/
theorem now_runTo_le (line : Timeline α) (halt : α → Bool) {target : Nat} {x : α}
    (hbefore : line.now x ≤ target) : line.now (line.runTo halt target x) ≤ target := by
  refine line.runTo_induction (P := fun y => line.now y ≤ target) ?_ hbefore
  intro y instant _ _ hreached
  rwa [line.now_arrive]

/-- What is visited next does not depend on how far behind it the target lies. -/
theorem nextStop_eq_of_le (line : Timeline α) {target nearer : Nat} {x : α}
    (hstop : line.nextStop target x ≤ nearer)
    (hnearer : nearer ≤ target) : line.nextStop nearer x = line.nextStop target x := by
  unfold nextStop at hstop ⊢
  split
  next instant hnext =>
    rw [hnext] at hstop
    simp only at hstop
    split <;> split at hstop <;> split <;> omega
  next hnone =>
    rw [hnone] at hstop
    exact Nat.le_antisymm hnearer hstop

/-- A run that stops early is a run to the instant at which it stops. -/
theorem runTo_eq_advance (line : Timeline α) (halt : α → Bool) (target : Nat) (x : α) :
    line.runTo halt target x = line.advance (line.now (line.runTo halt target x)) x := by
  fun_induction line.runTo halt target x with
  | case1 x hcond ih =>
    obtain ⟨hahead, hreached⟩ := line.lt_nextStop_le hcond.2
    have hvisited := line.now_arrive (line.nextStop target x) x
    have hfrom := line.now_le_now_runTo halt target (line.arrive (line.nextStop target x) x)
    have hto := line.now_runTo_le halt (hvisited.trans_le hreached)
    generalize line.runTo halt target (line.arrive (line.nextStop target x) x) = stopped at *
    rw [hvisited] at hfrom
    have hstop := line.nextStop_eq_of_le hfrom hto
    have hpast : line.now x < line.now stopped := by omega
    calc stopped
        = line.runTo (fun _ => false) (line.now stopped)
            (line.arrive (line.nextStop target x) x) := ih
      _ = line.advance (line.now stopped) x := by
          rw [advance]
          conv_rhs => rw [runTo, dif_pos ⟨rfl, hpast⟩, hstop]
  | case2 x hcond =>
    rw [advance, runTo, dif_neg]
    omega

end Timeline

namespace Pool

variable {τ σ ω ε : Type}

/-- No call of a task's function panics. -/
def Behaviour.NeverCrashes (b : Behaviour τ σ ω ε) : Prop :=
  ∀ task context world, b.crash? task context world = none

/-- What a pool can be asked for. -/
inductive Call (τ σ ω : Type) where
  | submit (task : τ)
  | submitWait (task : τ) (patience : Nat) (inFront : Bool)
  | close (patience : Nat) (inFront : Bool)
  | pass (span : Nat)
  /-- Changes what the tasks share, and releases the chosen tasks that wait for it. -/
  | release (free : ω → ω) (chosen : σ → Bool)

namespace Machine

/-- A pool that has not been asked for anything. -/
def fresh (settings : Settings) (world : ω) (circumstances : Circumstances := {}) :
    Machine τ σ ω ε :=
  { settings, world, circumstances }

/-- The settled pool after a call. -/
def perform (b : Behaviour τ σ ω ε) (m : Machine τ σ ω ε) : Call τ σ ω → Machine τ σ ω ε
  | .submit task => (m.submit task).2.settle b
  | .submitWait task patience inFront => (m.submitWait task patience inFront).2.settle b
  | .close patience inFront => m.close b patience inFront
  | .pass span => m.pass b span
  | .release free chosen => release b { m with world := free m.world } chosen

/-- The settled pool after a run. -/
def run (b : Behaviour τ σ ω ε) (m : Machine τ σ ω ε) (calls : List (Call τ σ ω)) :
    Machine τ σ ω ε :=
  calls.foldl (perform b) m

/-- Running until something holds is letting some time pass. -/
theorem exists_pass_of_runTo (b : Behaviour τ σ ω ε) (m : Machine τ σ ω ε)
    (halt : Machine τ σ ω ε → Bool) (target : Nat) :
    ∃ span, (line b).runTo halt target m = m.pass b span := by
  have hlater : m.now ≤ ((line b).runTo halt target m).now :=
    (line b).now_le_now_runTo halt target m
  refine ⟨((line b).runTo halt target m).now - m.now, ?_⟩
  rw [pass, Nat.add_sub_cancel' hlater]
  exact (line b).runTo_eq_advance halt target m

/-- Waiting in the foreground for room is that call and the time that it takes. -/
theorem exists_run_of_awaitRoom (b : Behaviour τ σ ω ε) (m : Machine τ σ ω ε) (task : τ)
    (patience : Nat) :
    ∃ span, ((m.submitWait task patience true).2.settle b).awaitRoom b m.nextTicket patience =
      m.run b [.submitWait task patience true, .pass span] :=
  exists_pass_of_runTo b _ _ _

/-- So is waiting in the foreground until the pool is closed. -/
theorem exists_run_of_awaitClosed (b : Behaviour τ σ ω ε) (m : Machine τ σ ω ε)
    (patience : Nat) :
    ∃ span, (m.close b patience true).awaitClosed b patience =
      m.run b [.close patience true, .pass span] :=
  exists_pass_of_runTo b _ _ _

/-! ## What can happen -/

/-- One thing that happens to a pool. -/
inductive Happening (b : Behaviour τ σ ω ε) : Machine τ σ ω ε → Machine τ σ ω ε → Prop
  | change {m m' : Machine τ σ ω ε} (hchange : Change b m m') : Happening b m m'
  | submit (m : Machine τ σ ω ε) (task : τ) : Happening b m (m.submit task).2
  | submitWait (m : Machine τ σ ω ε) (task : τ) (patience : Nat) (inFront : Bool) :
      Happening b m (m.submitWait task patience inFront).2
  /-- What the tasks share is changed from outside. -/
  | share (m : Machine τ σ ω ε) (world : ω) : Happening b m { m with world }

/-- Any number of things that happen to a pool. -/
abbrev Reaches (b : Behaviour τ σ ω ε) : Machine τ σ ω ε → Machine τ σ ω ε → Prop :=
  Relation.ReflTransGen (Happening b)

theorem tally_happening {b : Behaviour τ σ ω ε} {m m' : Machine τ σ ω ε}
    (hhappening : Happening b m m') :
    m'.tally = m.tally ∨ Tally.Step m.settings m.tally m'.tally := by
  cases hhappening with
  | change hchange => exact tally_change hchange
  | submit task => exact .inr (m.tally_submit task)
  | submitWait task patience inFront => exact .inr (m.tally_submitWait task patience inFront)
  | share => exact .inl rfl

/-- What does not change in a pool: how it was set up, and what its log tells already. -/
structure Lasts (m m' : Machine τ σ ω ε) : Prop where
  settings : m'.settings = m.settings
  log : m.log <+: m'.log
  circumstances : m'.circumstances = m.circumstances

theorem Lasts.refl (m : Machine τ σ ω ε) : m.Lasts m :=
  ⟨rfl, List.prefix_rfl, rfl⟩

theorem Lasts.trans {m between m' : Machine τ σ ω ε} (hfirst : m.Lasts between)
    (hthen : between.Lasts m') : m.Lasts m' where
  settings := hthen.settings.trans hfirst.settings
  log := hfirst.log.trans hthen.log
  circumstances := hthen.circumstances.trans hfirst.circumstances

theorem lasting_firstTurn (m : Machine τ σ ω ε) (rest : List (Queued τ)) (ticket : Nat)
    (rung : Bool) (turn : Turn σ ω ε) : m.Lasts ((m.vacate rest).firstTurn ticket rung turn) := by
  obtain ⟨ownPlace, nextPlace, heq⟩ := m.firstTurn_vacate_eq rest ticket rung turn
  rw [heq]
  exact ⟨rfl, List.prefix_append .., rfl⟩

theorem lasting_work {b : Behaviour τ σ ω ε} {m m' : Machine τ σ ω ε} (hwork : Work b m m') :
    m.Lasts m' := by
  cases hwork with
  | @launch first rest => exact m.lasting_firstTurn rest first.ticket _ _
  | @crash first rest wreck =>
      have hwrecked := m.lasting_firstTurn rest first.ticket false wreck.turn
      refine crash_induction (P := m.Lasts) { hwrecked with } fun _ hlasts => hlasts.trans ?_
      rw [desert_eq]
      exact ⟨rfl, List.prefix_append .., rfl⟩
  | @resume task cue =>
      obtain ⟨ownPlace, nextPlace, heq⟩ := m.resume_eq b task cue
      rw [heq]
      exact ⟨rfl, List.prefix_append .., rfl⟩
  | ring => exact ⟨rfl, List.prefix_rfl, rfl⟩
  | enterAll =>
      rw [enterAll_eq]
      exact ⟨rfl, List.prefix_append .., rfl⟩
  | callerTurn hcaller =>
      obtain ⟨_, -, -, heq⟩ | ⟨-, heq⟩ := callerTurn_cases hcaller <;> rw [heq]
      · exact ⟨rfl, List.prefix_append .., rfl⟩
      · exact ⟨rfl, List.prefix_append .., rfl⟩

/-- Nothing that happens changes how a pool was set up, or what its log tells already. -/
theorem lasting_happening {b : Behaviour τ σ ω ε} {m m' : Machine τ σ ω ε}
    (hhappening : Happening b m m') : m.Lasts m' := by
  cases hhappening with
  | change hchange =>
      cases hchange with
      | step hstep =>
          cases hstep with
          | work hwork => exact lasting_work hwork
          | finishClosing | giveUp => exact ⟨rfl, List.prefix_append .., rfl⟩
      | clock | await => exact ⟨rfl, List.prefix_rfl, rfl⟩
      | closed => exact ⟨rfl, List.prefix_append .., rfl⟩
      | shut =>
          rw [shut_eq]
          exact ⟨rfl, List.prefix_append .., rfl⟩
  | submit task =>
      obtain ⟨-, -, hsubmit⟩ | ⟨error, -, hsubmit⟩ := m.submit_cases task
      · rw [hsubmit]
        exact ⟨rfl, List.prefix_append .., rfl⟩
      · rw [hsubmit]
        exact ⟨rfl, List.prefix_append .., rfl⟩
  | submitWait task patience inFront =>
      rw [submitWait_eq]
      split
      · exact ⟨rfl, List.prefix_append .., rfl⟩
      split
      · exact ⟨rfl, List.prefix_append .., rfl⟩
      split
      · exact ⟨rfl, List.prefix_append .., rfl⟩
      · exact ⟨rfl, List.prefix_rfl, rfl⟩
  | share => exact ⟨rfl, List.prefix_rfl, rfl⟩

section Reached

variable {b : Behaviour τ σ ω ε} {m m' : Machine τ σ ω ε}

theorem lasting_reaches (hreaches : Reaches b m m') : m.Lasts m' := by
  induction hreaches with
  | refl => exact .refl m
  | tail _ hhappening ih => exact ih.trans (lasting_happening hhappening)

theorem Sound.of_tally (hsound : m.Sound) (hsettings : m'.settings = m.settings)
    (htally : m'.tally = m.tally ∨ Tally.Step m.settings m.tally m'.tally) : m'.Sound := by
  rw [Machine.Sound, hsettings]
  rcases htally with hsame | hstep
  · rw [hsame]
    exact hsound
  · exact hsound.step hstep

/-- Whatever happens to a pool, its books stay in order. -/
theorem Sound.happening (hsound : m.Sound) (hhappening : Happening b m m') : m'.Sound :=
  hsound.of_tally (lasting_happening hhappening).settings (tally_happening hhappening)

theorem Sound.reaches (hsound : m.Sound) (hreaches : Reaches b m m') : m'.Sound := by
  induction hreaches with
  | refl => exact hsound
  | tail _ hhappening ih => exact ih.happening hhappening

theorem sound_fresh (settings : Settings) (world : ω) (circumstances : Circumstances) :
    (fresh settings world circumstances : Machine τ σ ω ε).Sound where
  everyone := .refl _
  in_order := rfl
  in_hand := .refl _
  lost_ended := .refl _
  busy_le := Nat.zero_le _
  dropped_deserted := nofun
  front_deserted _ := ⟨rfl, rfl, rfl⟩
  taken_le := Nat.zero_le _
  full_of_waiting := nofun

/-- A run comes to what it reaches. -/
theorem reaches_of_changes (hchanges : Changes b m m') : Reaches b m m' :=
  hchanges.lift id fun _ _ => .change

theorem reaches_settle (hsound : m.Sound) : Reaches b m (m.settle b) :=
  reaches_of_changes (steps_settle b hsound.tidy).changes

theorem reaches_perform (hsound : m.Sound) (call : Call τ σ ω) :
    Reaches b m (m.perform b call) := by
  cases call with
  | submit task =>
      have hsubmit := Happening.submit (b := b) m task
      exact .head hsubmit (reaches_settle (hsound.happening hsubmit))
  | submitWait task patience inFront =>
      have hsubmit := Happening.submitWait (b := b) m task patience inFront
      exact .head hsubmit (reaches_settle (hsound.happening hsubmit))
  | close patience inFront =>
      exact reaches_of_changes (changes_close b hsound.tidy patience inFront)
  | pass span =>
      refine (line b).runTo_induction (P := Reaches b m) ?_ .refl
      intro between instant hbetween _ _
      have htidy := (hsound.reaches hbetween).tidy
      exact hbetween.trans (reaches_of_changes (changes_arrive b htidy instant))
  | release free chosen =>
      have hshare := Happening.share (b := b) m (free m.world)
      have htidy := (hsound.happening hshare).tidy
      exact .head hshare (reaches_of_changes (steps_release b htidy chosen).changes)

theorem reaches_run (hsound : m.Sound) (calls : List (Call τ σ ω)) :
    Reaches b m (m.run b calls) := by
  induction calls generalizing m with
  | nil => exact .refl
  | cons call calls ih =>
      have hfirst := reaches_perform (b := b) hsound call
      exact hfirst.trans (ih (hsound.reaches hfirst))

end Reached

/-! ## Workers that are lost -/

section Lost

variable {b : Behaviour τ σ ω ε} {m m' : Machine τ σ ω ε}

/-- A worker that calls a task's function, which panics, is lost with that task; and the queue goes
with the last worker. -/
theorem crash_losses (m : Machine τ σ ω ε) (rest : List (Queued τ)) (ticket : Nat)
    (wreck : Wreck ω ε) :
    ((m.vacate rest).crash ticket wreck).lost = m.lost ++ [ticket] ∧
      ((m.vacate rest).crash ticket wreck).dropped =
        m.dropped ++ if m.settings.workers ≤ m.lost.length + 1 then rest.map (·.ticket)
          else [] := by
  obtain ⟨nextPlace, heq⟩ := m.wrecked_eq rest ticket wreck
  have hleft : ((m.vacate rest).wrecked ticket wreck).isDeserted =
      decide (m.settings.workers ≤ m.lost.length + 1) := by
    rw [heq, isDeserted, List.length_append]
    rfl
  unfold crash
  simp only [hleft, decide_eq_true_eq]
  split
  · rw [desert_eq, heq]
    exact ⟨rfl, rfl⟩
  · rw [heq]
    exact ⟨rfl, (List.append_nil _).symm⟩

/-- Whatever else happens, no worker is lost by it and no task is dropped. -/
theorem losses_of_happening (hhappening : Happening b m m') :
    m'.lost = m.lost ∧ m'.dropped = m.dropped ∨
      ∃ first rest wreck, m.queue = first :: rest ∧ m.hasIdleWorker = true ∧
        m.crash? b first.task = some wreck ∧
        m' = (m.vacate rest).crash first.ticket wreck := by
  have hfirst : ∀ (rest : List (Queued τ)) (ticket : Nat) (rung : Bool) (turn : Turn σ ω ε),
      ((m.vacate rest).firstTurn ticket rung turn).lost = m.lost ∧
        ((m.vacate rest).firstTurn ticket rung turn).dropped = m.dropped := by
    intro rest ticket rung turn
    obtain ⟨ownPlace, nextPlace, heq⟩ := m.firstTurn_vacate_eq rest ticket rung turn
    rw [heq]
    exact ⟨rfl, rfl⟩
  cases hhappening with
  | change hchange =>
      cases hchange with
      | step hstep =>
          cases hstep with
          | work hwork =>
              cases hwork with
              | launch => exact .inl (hfirst ..)
              | crash hqueue hidle hcall => exact .inr ⟨_, _, _, hqueue, hidle, hcall, rfl⟩
              | @resume task cue =>
                  obtain ⟨ownPlace, nextPlace, heq⟩ := m.resume_eq b task cue
                  rw [heq]
                  exact .inl ⟨rfl, rfl⟩
              | ring => exact .inl ⟨rfl, rfl⟩
              | enterAll =>
                  rw [enterAll_eq]
                  exact .inl ⟨rfl, rfl⟩
              | callerTurn hcaller =>
                  obtain ⟨_, -, -, heq⟩ | ⟨-, heq⟩ := callerTurn_cases hcaller <;> rw [heq]
                  · exact .inl ⟨rfl, rfl⟩
                  · exact .inl ⟨rfl, rfl⟩
          | finishClosing | giveUp => exact .inl ⟨rfl, rfl⟩
      | clock | await | closed => exact .inl ⟨rfl, rfl⟩
      | shut =>
          rw [shut_eq]
          exact .inl ⟨rfl, rfl⟩
  | submit task =>
      obtain ⟨-, -, hsubmit⟩ | ⟨error, -, hsubmit⟩ := m.submit_cases task <;> rw [hsubmit]
      · exact .inl ⟨rfl, rfl⟩
      · exact .inl ⟨rfl, rfl⟩
  | submitWait task patience inFront =>
      rw [submitWait_eq]
      left
      split
      · exact ⟨rfl, rfl⟩
      split
      · exact ⟨rfl, rfl⟩
      split <;> exact ⟨rfl, rfl⟩
  | share => exact .inl ⟨rfl, rfl⟩

/-- Where no call panics no worker is ever lost, and no task is dropped. -/
theorem losses_of_neverCrashes (hcalls : b.NeverCrashes) (hreaches : Reaches b m m') :
    m'.lost = m.lost ∧ m'.dropped = m.dropped := by
  induction hreaches with
  | refl => exact ⟨rfl, rfl⟩
  | tail _ hhappening ih =>
      obtain ⟨hlost, hdropped⟩ | ⟨first, rest, wreck, -, -, hcall, -⟩ :=
        losses_of_happening hhappening
      · exact ⟨hlost.trans ih.1, hdropped.trans ih.2⟩
      · rw [crash?, hcalls] at hcall
        cases hcall

end Lost

/-! ## Settled pools -/

/-- In a settled pool nobody is about to put a task in, and no worker stands idle in front of a
task. -/
structure Settled (m : Machine τ σ ω ε) : Prop where
  nobody_enters : m.admitted = []
  nobody_idles : m.queue ≠ [] → m.hasIdleWorker = false

theorem nobody_idles_fill (b : Behaviour τ σ ω ε) (m : Machine τ σ ω ε) :
    (m.fill b).queue ≠ [] → (m.fill b).hasIdleWorker = false := by
  fun_induction fill b m with
  | case1 m hqueue => exact fun hwaits => absurd hqueue hwaits
  | case2 m first rest hqueue hidle ih => exact ih
  | case3 m first rest hqueue hbusy => exact fun _ => by simpa using hbusy

theorem settled_follow (b : Behaviour τ σ ω ε) (m : Machine τ σ ω ε) :
    (m.follow b).Settled := by
  fun_induction follow b m with
  | case1 m after hadmitted => exact ⟨hadmitted, nobody_idles_fill b _⟩
  | case2 m after _ ih => exact ih

theorem settled_settle (b : Behaviour τ σ ω ε) (m : Machine τ σ ω ε) :
    (m.settle b).Settled := by
  have hround : ((m.round b).round b).Settled := settled_follow b _
  unfold settle conclude
  split
  · exact ⟨hround.nobody_enters, hround.nobody_idles⟩
  · exact hround

theorem Settled.perform {b : Behaviour τ σ ω ε} {m : Machine τ σ ω ε} (hsettled : m.Settled)
    (call : Call τ σ ω) : (m.perform b call).Settled := by
  cases call with
  | submit | submitWait | release => exact settled_settle b _
  | close patience inFront =>
      show (m.close b patience inFront).Settled
      unfold close
      split
      · exact settled_settle b _
      · exact ⟨hsettled.nobody_enters, hsettled.nobody_idles⟩
  | pass span =>
      exact (line b).runTo_induction (P := Settled) (fun _ _ _ _ _ => settled_settle b _) hsettled

/-- After each call of a run the pool is settled. -/
theorem settled_run (b : Behaviour τ σ ω ε) (settings : Settings) (world : ω)
    (circumstances : Circumstances) (calls : List (Call τ σ ω)) :
    ((fresh settings world circumstances : Machine τ σ ω ε).run b calls).Settled := by
  suffices h : ∀ m : Machine τ σ ω ε, m.Settled → (m.run b calls).Settled from
    h _ ⟨rfl, fun hwaits => absurd rfl hwaits⟩
  induction calls with
  | nil => exact fun _ hsettled => hsettled
  | cons call calls ih => exact fun m hsettled => ih _ (hsettled.perform call)

end Machine

end Pool

end Upkeep
