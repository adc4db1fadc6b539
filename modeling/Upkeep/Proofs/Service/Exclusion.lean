/-
# One job at a time, whatever the order of moves

Visits look at the slot and act on what they saw, and in between anything can happen. All the same
nobody is let in before the job in the slot has ended: only its holder ends it, and a job is
started in a free slot only. So whoever ends a job ends the job that is in the slot and touches no
other. A visit that is turned away never was a holder, and all that it did was to look; if it is
told of a job, then it has seen that job in the slot.

Nothing is asked of the identifiers. If two jobs had one, at most one of them would be in the slot
and the other in the history, where no operation looks for it.
-/

import Upkeep.Proofs.Service.Holding

namespace Upkeep.Service

/-- The stages of a visit that has done nothing but look, to the end if it is turned away. -/
def Stage.OnlyLooked : Stage → Prop
  | .judged | .unopposed | .ready _ | .beaten => True
  | .answered (.error refusal) => refusal.status = .conflict
  | .admitted _ | .unscheduled _ _ | .answered (.ok _) => False

/-- The stages at which a visit looks at the slot. -/
def Stage.Looks (stage : Stage) : Prop :=
  stage = .judged ∨ stage = .beaten

namespace Scene

variable {scene : Scene}

theorem run_append (scene : Scene) (earlier later : List Move) :
    scene.run (earlier ++ later) = (scene.run earlier).run later :=
  List.foldl_append ..

/-! ## From one job to the next -/

/-- The job in the slot stays there until it is ended. -/
theorem Orderly.current_step (horderly : scene.Orderly) {job : Job}
    (hcurrent : scene.store.current = some job) (move : Move) :
    (scene.step move).store.current = some job ∨
      ∃ failure, scene.Concludes move job failure := by
  cases hissued : scene.issued? move with
  | none =>
      rw [store_step, hissued]
      exact .inl hcurrent
  | some operation =>
      cases issue_of_issued hissued with
      | start other =>
          cases hstarted : (scene.store.tryStart other).1 with
          | true =>
              obtain ⟨hfree, -⟩ := horderly.current_of_starts ⟨hissued, hstarted⟩
              rw [hfree] at hcurrent
              cases hcurrent
          | false =>
              rw [store_of_refused hissued hstarted]
              exact .inl hcurrent
      | conclude =>
          obtain ⟨other, -, hconcludes⟩ := horderly.concludes hissued
          obtain rfl : job = other := by
            rw [hconcludes.current] at hcurrent
            exact (Option.some.inj hcurrent).symm
          exact .inr ⟨_, hconcludes⟩
      | sweep => exact .inl hcurrent

/-- A job that has left the slot was ended on the way. -/
theorem Orderly.concludes_of_gone (horderly : scene.Orderly) {job : Job}
    (hcurrent : scene.store.current = some job) {moves : List Move}
    (hgone : (scene.run moves).store.current ≠ some job) :
    ∃ earlier ending later failure, moves = earlier ++ ending :: later ∧
      (scene.run earlier).Concludes ending job failure := by
  induction moves generalizing scene with
  | nil => exact absurd hcurrent hgone
  | cons move moves ih =>
      obtain hstays | ⟨failure, hconcludes⟩ := horderly.current_step hcurrent move
      · obtain ⟨earlier, ending, later, failure, rfl, hconcludes⟩ :=
          ih (horderly.step move) hstays hgone
        exact ⟨move :: earlier, ending, later, failure, rfl, hconcludes⟩
      · exact ⟨[], move, moves, failure, rfl, hconcludes⟩

/-- Between the starts of two jobs the first one is ended. -/
theorem Orderly.concludes_between (horderly : scene.Orderly) {first second : Move}
    {between : List Move} {job other : Job} (hfirst : scene.Starts first job)
    (hsecond : (scene.run (first :: between)).Starts second other) :
    ∃ earlier ending later failure, between = earlier ++ ending :: later ∧
      (scene.run (first :: earlier)).Concludes ending { job with state := .running } failure := by
  obtain ⟨-, hcurrent⟩ := horderly.current_of_starts hfirst
  obtain ⟨hfree, -⟩ := (horderly.run (first :: between)).current_of_starts hsecond
  apply (horderly.step first).concludes_of_gone hcurrent
  intro hstays
  have hboth := hstays.symm.trans hfree
  cases hboth

/-! ## What becomes of a visit -/

theorem visits_takeUp (scene : Scene) : (scene.step .takeUp).visits = scene.visits := by
  simp only [step]
  split
  · rfl
  · split <;> rfl

theorem visits_finish (scene : Scene) (ticket : Nat) (failure : Option String) :
    (scene.step (.finish ticket failure)).visits = scene.visits := by
  simp only [step]
  split <;> rfl

/-- Visits are brought on by their own moves only. -/
theorem visit_step {n : Nat} {visit : Visit} (hvisit : scene.visits[n]? = some visit)
    (move : Move) :
    (move ≠ .visit n ∧ (scene.step move).visits[n]? = some visit) ∨
      (move = .visit n ∧ ∃ stage,
        scene.Turn visit.judged visit.stage stage (scene.step move).pool ∧
        (scene.step move).visits[n]? = some { visit with stage }) := by
  have hn := (List.getElem?_eq_some_iff.1 hvisit).1
  by_cases hmove : move = .visit n
  · subst hmove
    obtain ⟨drawn, stage, pool, hturn, hstep⟩ := step_visit hvisit
    right
    rw [hstep]
    exact ⟨rfl, stage, hturn, List.getElem?_set_self hn⟩
  · left
    constructor
    · exact hmove
    cases move with
    | arrive judged => exact (List.getElem?_append_left hn).trans hvisit
    | visit m =>
        have hother : m ≠ n := fun hsame => hmove (congrArg Move.visit hsame)
        cases hbefore : scene.visits[m]? with
        | none =>
            simp only [step, hbefore]
            exact hvisit
        | some before =>
            obtain ⟨drawn, stage, pool, -, hstep⟩ := step_visit hbefore
            rw [hstep]
            exact (List.getElem?_set_ne hother).trans hvisit
    | takeUp => exact visits_takeUp scene ▸ hvisit
    | finish ticket failure => exact visits_finish scene ticket failure ▸ hvisit
    | occupy | shut | giveUp | setClock | sweep => exact hvisit

/-- A visit that was not there before has only just been judged. -/
theorem visit_arrives {n : Nat} (hnone : scene.visits[n]? = none) {move : Move} {visit : Visit}
    (hvisit : (scene.step move).visits[n]? = some visit) : visit.stage = .judged := by
  have hn := List.getElem?_eq_none_iff.1 hnone
  have hunchanged : (scene.step move).visits = scene.visits → visit.stage = .judged := by
    intro hsame
    rw [hsame, hnone] at hvisit
    cases hvisit
  cases move with
  | arrive judged =>
      have hlast : [({ judged } : Visit)][n - scene.visits.length]? = some visit :=
        (List.getElem?_append_right hn).symm.trans hvisit
      have hmem := List.mem_of_getElem? hlast
      rw [List.mem_singleton] at hmem
      rw [hmem]
  | visit m =>
      cases hother : scene.visits[m]? with
      | none =>
          apply hunchanged
          simp only [step, hother]
      | some other =>
          obtain ⟨drawn, stage, pool, hturn, hstep⟩ := step_visit hother
          rw [hstep] at hvisit
          have hlength := (List.getElem?_eq_some_iff.1 hvisit).1
          rw [List.length_set] at hlength
          omega
  | takeUp => exact hunchanged (visits_takeUp scene)
  | finish ticket failure => exact hunchanged (visits_finish scene ticket failure)
  | occupy | shut | giveUp | setClock | sweep => exact hunchanged rfl

/-! ## Visits that are turned away -/

/-- A move after which a visit has still done nothing but look was nothing but a look. -/
theorem Turn.onlyLooked {judged : Judged} {before after : Stage} {pool : JobPool}
    (hturn : scene.Turn judged before after pool) (hafter : after.OnlyLooked) :
    before.OnlyLooked ∧ pool = scene.pool := by
  cases hturn with
  | sees | passes | makes | fails | leaves => exact ⟨trivial, rfl⟩
  | starts => exact hafter.elim
  | submits id =>
      cases htaken : (scene.pool.submit (.job id judged.request)).1 <;> rw [htaken] at hafter
      · exact hafter.elim
      · exact hafter.elim
  | withdraws => cases hafter
  | rests => exact ⟨hafter, rfl⟩

/-- The visit with a number, if there is one, has done nothing but look. -/
def OnlyLooked (scene : Scene) (n : Nat) : Prop :=
  ∀ visit, scene.visits[n]? = some visit → visit.stage.OnlyLooked

theorem onlyLooked_of_step {n : Nat} {move : Move} (hafter : (scene.step move).OnlyLooked n) :
    scene.OnlyLooked n := by
  intro visit hvisit
  obtain ⟨-, hsame⟩ | ⟨rfl, stage, hturn, hstage⟩ := visit_step hvisit move
  · exact hafter visit hsame
  · exact (hturn.onlyLooked (hafter _ hstage)).1

theorem onlyLooked_of_run {n : Nat} {moves : List Move} (hafter : (scene.run moves).OnlyLooked n) :
    scene.OnlyLooked n := by
  induction moves generalizing scene with
  | nil => exact hafter
  | cons move moves ih => exact onlyLooked_of_step (ih hafter)

/-- What a visit that has done nothing but look has done to the store and the pool: nothing. -/
theorem pool_of_onlyLooked {n : Nat} (hafter : (scene.step (.visit n)).OnlyLooked n) :
    (scene.step (.visit n)).pool = scene.pool := by
  cases hvisit : scene.visits[n]? with
  | none => simp only [step, hvisit]
  | some visit =>
      obtain ⟨hother, -⟩ | ⟨-, stage, hturn, hstage⟩ := visit_step hvisit (.visit n)
      · exact absurd rfl hother
      · exact (hturn.onlyLooked (hafter _ hstage)).2

/-- A visit that is told of a job has been told before, or looks and sees it. -/
theorem Turn.told {judged : Judged} {before : Stage} {pool : JobPool} {job : Job}
    (hturn : scene.Turn judged before (.answered (.error (.jobInProgress job))) pool) :
    before = .answered (.error (.jobInProgress job)) ∨
      (before.Looks ∧ scene.store.current = some job) := by
  generalize hafter : Stage.answered (.error (.jobInProgress job)) = after at hturn
  cases hturn with
  | sees other hcurrent =>
      cases hafter
      exact .inr ⟨.inl rfl, hcurrent⟩
  | leaves =>
      cases hcurrent : scene.store.current <;> rw [hcurrent] at hafter <;> cases hafter
      exact .inr ⟨.inr rfl, rfl⟩
  | rests =>
      cases hafter
      exact .inl rfl
  | submits id =>
      cases htaken : (scene.pool.submit (.job id judged.request)).1 <;> rw [htaken] at hafter <;>
        cases hafter
  | passes | makes | starts | fails | withdraws => cases hafter

/-- The visit with a number, made by this request, has been told of a job. -/
def Told (scene : Scene) (n : Nat) (judged : Judged) (job : Job) : Prop :=
  scene.visits[n]? = some ⟨judged, .answered (.error (.jobInProgress job))⟩

/-- The visit with a number, made by this request, looks at the slot when the job is in it. -/
structure Sees (scene : Scene) (n : Nat) (judged : Judged) (job : Job) : Prop where
  looks : ∃ stage : Stage, stage.Looks ∧ scene.visits[n]? = some ⟨judged, stage⟩
  current : scene.store.current = some job

variable {n : Nat} {judged : Judged} {job : Job}

theorem told_of_step {move : Move} (htold : (scene.step move).Told n judged job) :
    scene.Told n judged job ∨ (move = .visit n ∧ scene.Sees n judged job) := by
  cases hvisit : scene.visits[n]? with
  | none => cases visit_arrives hvisit htold
  | some visit =>
      obtain ⟨-, hsame⟩ | ⟨hmove, stage, hturn, hstage⟩ := visit_step hvisit move
      · exact .inl (hvisit.trans (hsame.symm.trans htold))
      · obtain ⟨_, before⟩ := visit
        cases htold.symm.trans hstage
        obtain rfl | ⟨hlooks, hcurrent⟩ := hturn.told
        · exact .inl hvisit
        · exact .inr ⟨hmove, ⟨before, hlooks, hvisit⟩, hcurrent⟩

theorem told_of_run {moves : List Move} (htold : (scene.run moves).Told n judged job) :
    scene.Told n judged job ∨ ∃ before after, moves = before ++ .visit n :: after ∧
      (scene.run before).Sees n judged job := by
  induction moves generalizing scene with
  | nil => exact .inl htold
  | cons move moves ih =>
      obtain hfirst | ⟨before, after, rfl, hsees⟩ := ih htold
      · obtain hearlier | ⟨rfl, hsees⟩ := told_of_step hfirst
        · exact .inl hearlier
        · exact .inr ⟨[], moves, rfl, hsees⟩
      · exact .inr ⟨move :: before, after, rfl, hsees⟩

/-! ## Exclusion -/

/-- What holds of a run of moves from a scene on. -/
structure Exclusive (start : Scene) (moves : List Move) : Prop where
  /-- At most one job is not over. -/
  one_job : (((start.run moves).store.current.toList ++ (start.run moves).store.history).filter
    fun job => !job.isTerminal).length ≤ 1
  /-- Whatever the next move is, the store changes by the operation that it is, and by nothing
  else. -/
  store_step : ∀ move, ((start.run moves).step move).store =
    match (start.run moves).issued? move with
    | some operation => (start.run moves).store.apply operation (start.run moves).clock
    | none => (start.run moves).store
  /-- If it is the end of a job, then that job is in the slot, and it alone goes over to the
  history. -/
  concludes : ∀ move id failure, (start.run moves).issued? move = some (.conclude id failure) →
    ∃ job, job.id = id ∧ (start.run moves).Concludes move job failure
  /-- Between the starts of two jobs the first one is ended. -/
  between : ∀ before first middle second after job other,
    moves = before ++ first :: middle ++ second :: after →
    (start.run before).Starts first job →
    (start.run (before ++ first :: middle)).Starts second other →
    ∃ earlier ending later failure, middle = earlier ++ ending :: later ∧
      (start.run (before ++ first :: earlier)).Concludes ending { job with state := .running }
        failure
  /-- A visit that is turned away from the slot has changed neither the store nor the pool. -/
  harmless : ∀ n visit refusal, (start.run moves).visits[n]? = some visit →
    visit.stage = .answered (.error refusal) → refusal.status = .conflict →
    ∀ before after, moves = before ++ .visit n :: after →
      (start.run (before ++ [.visit n])).store = (start.run before).store ∧
        (start.run (before ++ [.visit n])).pool = (start.run before).pool
  /-- A visit that is told of a job looked at the slot when that job was in it. -/
  named : ∀ n visit job, (start.run moves).visits[n]? = some visit →
    visit.stage = .answered (.error (.jobInProgress job)) →
    ∃ before after, moves = before ++ .visit n :: after ∧
      (start.run before).Sees n visit.judged job

/-- However many requests there are, whatever the pool is and in whatever order the moves of
visits and workers follow one another, whenever the pool is closed and whichever jobs fail: there
is one job at a time. -/
theorem exclusive_of_run (supply : Nat → JobId) (settings : Pool.Settings) (maxHistory : Nat)
    (world : World) (moves : List Move) :
    (opening supply settings maxHistory world).Exclusive moves := by
  have horderly := orderly_opening supply settings maxHistory world
  generalize hstart : opening supply settings maxHistory world = start at horderly
  have hnobody : ∀ n : Nat, start.visits[n]? = none := by
    intro n
    rw [← hstart]
    exact List.getElem?_nil
  constructor
  · exact (horderly.run moves).store_sound.length_unfinished_le
  · exact store_step _
  · intro move id failure hissued
    exact (horderly.run moves).concludes hissued
  · intro before first middle second after job other _ hfirst hsecond
    rw [run_append] at hsecond
    obtain ⟨earlier, ending, later, failure, hmiddle, hconcludes⟩ :=
      (horderly.run before).concludes_between hfirst hsecond
    rw [← run_append] at hconcludes
    exact ⟨earlier, ending, later, failure, hmiddle, hconcludes⟩
  · intro n visit refusal hvisit hstage hstatus before after hmoves
    have hlooked : (start.run moves).OnlyLooked n := by
      intro other hother
      cases hvisit.symm.trans hother
      rw [hstage]
      exact hstatus
    rw [hmoves, List.append_cons, run_append] at hlooked
    have hpool : (start.run (before ++ [.visit n])).pool = (start.run before).pool := by
      have hmove := onlyLooked_of_run hlooked
      rw [run_append] at hmove ⊢
      exact pool_of_onlyLooked hmove
    exact ⟨congrArg (·.world.store) hpool, hpool⟩
  · intro n visit job hvisit hstage
    obtain ⟨judged, stage⟩ := visit
    cases hstage
    obtain hearlier | hsees := told_of_run hvisit
    · cases (hnobody n).symm.trans hearlier
    · exact hsees

/-- Two visits see the slot free. The first is let in; the second is beaten to the slot, and when
it looks again the job has ended, so it is turned away without being told of a job. -/
example :
    let judged : Judged := ⟨{ action := "reboot", timestamp := 0 }, .reboot⟩
    let world : World :=
      { store := ⟨1, none, []⟩, reading := 0,
        surroundings := { distribution := .ok (.supported "debian" .apt) } }
    let moves : List Move :=
      [.arrive judged, .arrive judged, .visit 0, .visit 1, .visit 0, .visit 1, .visit 0, .visit 1,
        .visit 0, .takeUp, .finish 0 none, .visit 1]
    ((opening (fun n => ⟨toString n⟩) (.of 1 1 0) 1 world).run moves).visits.map
      (fun visit => visit.stage matches .answered (.error .busy)) = [false, true] := by
  decide +kernel

end Scene

end Upkeep.Service
