/-
# A pool in time

Whatever happens in a pool happens at an instant: no operation moves its clock except the
arrival at a later one. So a pool can be run along a timeline.
-/

import Upkeep.Pool.Machine

namespace Upkeep.Pool.Machine

variable {τ σ ω ε : Type}

@[simp] theorem now_note (m : Machine τ σ ω ε) (event : Event ε) : (m.note event).now = m.now :=
  rfl

/-- A turn takes no time. -/
@[simp] theorem now_finishTurn (m : Machine τ σ ω ε) (ticket deadline : Nat) (rung : Bool)
    (place : Nat) (turn : Turn σ ω ε) :
    (m.finishTurn ticket deadline rung place turn).now = m.now := by
  have hsaid : ∀ (words : List ε) (m : Machine τ σ ω ε) (context : Context),
      (words.foldl (fun m word => m.note (.said ticket context word)) m).now = m.now := by
    intro words
    induction words with
    | nil => intros; rfl
    | cons word words ih => intro m context; exact ih (m.note _) context
  unfold finishTurn
  simp only
  split
  · simp [hsaid]
  · split <;> simp [hsaid]

@[simp] theorem now_firstTurn (m : Machine τ σ ω ε) (ticket : Nat) (rung : Bool)
    (turn : Turn σ ω ε) : (m.firstTurn ticket rung turn).now = m.now := by
  simp [firstTurn]

@[simp] theorem now_launch (b : Behaviour τ σ ω ε) (m : Machine τ σ ω ε) (queued : Queued τ) :
    (m.launch b queued).now = m.now := by
  simp [launch]

@[simp] theorem now_resume (b : Behaviour τ σ ω ε) (m : Machine τ σ ω ε) (task : Running σ)
    (cue : Cue) : (m.resume b task cue).now = m.now := by
  simp [resume]

/-- Looking at a task takes no time. -/
@[simp] theorem now_attend (b : Behaviour τ σ ω ε) (m : Machine τ σ ω ε) (ticket : Nat) :
    (m.attend b ticket).now = m.now := by
  unfold attend
  split
  · rfl
  next task _ => cases m.cue? task <;> simp

@[simp] theorem now_watch (b : Behaviour τ σ ω ε) (m : Machine τ σ ω ε) (ticket : Nat) :
    (m.watch b ticket).now = m.now :=
  now_attend b (m.ring ticket) ticket

@[simp] theorem now_look (b : Behaviour τ σ ω ε) (m : Machine τ σ ω ε) (ticket : Nat) :
    (m.look b ticket).now = m.now := by
  unfold look
  split <;> simp

@[simp] theorem now_enqueue (m : Machine τ σ ω ε) (ticket : Nat) (task : τ) :
    (m.enqueue ticket task).now = m.now :=
  rfl

@[simp] theorem now_admitNext (m : Machine τ σ ω ε) : m.admitNext.now = m.now := by
  unfold admitNext
  split
  · rfl
  · split <;> rfl

@[simp] theorem now_vacate (m : Machine τ σ ω ε) (rest : List (Queued τ)) :
    (m.vacate rest).now = m.now :=
  now_admitNext _

/-- What takes no time for each of several takes none for all of them. -/
theorem now_foldl {α : Type} {f : Machine τ σ ω ε → α → Machine τ σ ω ε}
    (h : ∀ m x, (f m x).now = m.now) (xs : List α) (m : Machine τ σ ω ε) :
    (xs.foldl f m).now = m.now := by
  induction xs generalizing m with
  | nil => rfl
  | cons x xs ih => exact (ih _).trans (h m x)

@[simp] theorem now_refuseAll (m : Machine τ σ ω ε) (callers : List (Waiting τ))
    (error : PoolError) : (m.refuseAll callers error).now = m.now := by
  unfold refuseAll
  rw [now_foldl fun _ _ => now_note ..]

/-- A panic takes no time. -/
@[simp] theorem now_crash (m : Machine τ σ ω ε) (ticket : Nat) (wreck : Wreck ω ε) :
    (m.crash ticket wreck).now = m.now := by
  unfold crash
  simp only
  split
  · exact (now_refuseAll ..).trans (now_firstTurn ..)
  · exact now_firstTurn ..

@[simp] theorem now_takeUp (b : Behaviour τ σ ω ε) (m : Machine τ σ ω ε) (first : Queued τ)
    (rest : List (Queued τ)) : (m.takeUp b first rest).now = m.now := by
  unfold takeUp
  split <;> simp

/-- Starting tasks takes no time. -/
@[simp] theorem now_fill (b : Behaviour τ σ ω ε) (m : Machine τ σ ω ε) :
    (m.fill b).now = m.now := by
  fun_induction fill b m with
  | case1 => rfl
  | case2 m first rest _ _ ih => rw [ih, now_takeUp]
  | case3 => rfl

@[simp] theorem now_enterAll (m : Machine τ σ ω ε) : m.enterAll.now = m.now := by
  unfold enterAll
  rw [now_foldl fun _ _ => now_enqueue ..]

@[simp] theorem now_follow (b : Behaviour τ σ ω ε) (m : Machine τ σ ω ε) :
    (m.follow b).now = m.now := by
  fun_induction follow b m with
  | case1 m after _ => exact (now_fill ..).trans (now_enterAll m)
  | case2 m after _ ih => exact ih.trans ((now_fill ..).trans (now_enterAll m))

@[simp] theorem now_refill (b : Behaviour τ σ ω ε) (m after : Machine τ σ ω ε) :
    (m.refill b after).now = after.now := by
  unfold refill
  split <;> simp

@[simp] theorem now_callerTurn (m : Machine τ σ ω ε) (ticket : Nat) :
    (m.callerTurn ticket).now = m.now := by
  unfold callerTurn
  split
  · rfl
  · split <;> rfl

/-- A turn of whoever is due takes no time. -/
@[simp] theorem now_giveTurn (b : Behaviour τ σ ω ε) (m : Machine τ σ ω ε) (party : Party) :
    (m.giveTurn b party).now = m.now := by
  cases party with
  | task ticket => exact (now_refill ..).trans (now_look ..)
  | caller ticket => exact now_callerTurn m ticket
  | closer =>
    simp only [giveTurn]
    split <;> rfl

@[simp] theorem now_round (b : Behaviour τ σ ω ε) (m : Machine τ σ ω ε) :
    (m.round b).now = m.now :=
  (now_follow ..).trans (now_foldl (now_giveTurn b) ..)

@[simp] theorem now_conclude (m : Machine τ σ ω ε) : m.conclude.now = m.now := by
  unfold conclude
  split <;> rfl

/-- Settling takes no time. -/
@[simp] theorem now_settle (b : Behaviour τ σ ω ε) (m : Machine τ σ ω ε) :
    (m.settle b).now = m.now := by
  simp [settle]

/-- A pool as something that changes at instants. -/
def line (b : Behaviour τ σ ω ε) : Timeline (Machine τ σ ω ε) where
  now := now
  next? m := m.dueInstants.min?
  arrive := arrive b
  now_arrive instant m := by simp [arrive]

/-- Waits until the submission with a ticket is answered, at most as long as `patience`. -/
def awaitRoom (b : Behaviour τ σ ω ε) (m : Machine τ σ ω ε) (ticket patience : Nat) :
    Machine τ σ ω ε :=
  (line b).runTo (fun m => !m.isWaiting ticket) (m.now + patience) m

/-- Waits until the call that closed the pool has returned, at most as long as `patience`. -/
def awaitClosed (b : Behaviour τ σ ω ε) (m : Machine τ σ ω ε) (patience : Nat) :
    Machine τ σ ω ε :=
  (line b).runTo (fun m => m.closing.isNone) (m.now + patience) m

/-- Lets time pass. -/
def pass (b : Behaviour τ σ ω ε) (m : Machine τ σ ω ε) (span : Nat) : Machine τ σ ω ε :=
  (line b).advance (m.now + span) m

end Upkeep.Pool.Machine
