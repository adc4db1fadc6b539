/-
# Commands on the host

The pool has several workers, and nothing in it keeps two of them from working at the same time.
What keeps the commands of two jobs apart is that the pool never has two errands: the next job is
let into the slot only after the last turn of the one before it. So the commands that are
launched are those of one errand after the other, and at most one of them runs at any moment.
-/

import Upkeep.Proofs.Service.Recount

namespace Upkeep.Service

/-! ## What runs on the host -/

/-- A command of a job. -/
abbrev JobCommand := JobId × Host.Command

/-- The commands that run after a report, if those in `running` ran before it. -/
def Report.follow (running : List JobCommand) : Report → List JobCommand
  | .launched id command => running ++ [(id, command)]
  | .stopped id command => running.erase (id, command)
  | .begun .. | .concluded .. => running

/-- The commands that run after a list of reports. -/
def commandsAfoot (reports : List Report) : List JobCommand :=
  reports.foldl Report.follow []

/-- The commands that were launched, in order. -/
def launchedCommands (reports : List Report) : List JobCommand :=
  reports.filterMap fun
    | .launched id command => some (id, command)
    | _ => none

/-- The jobs whose work has begun, each with its request, in order. -/
def begunJobs (reports : List Report) : List (JobId × Request) :=
  reports.filterMap fun
    | .begun id request => some (id, request)
    | _ => none

/-- At every moment of these reports at most one command runs. -/
def Serial (reports : List Report) : Prop :=
  ∀ moment, moment <+: reports → (commandsAfoot moment).length ≤ 1

/-- Serial reports after which no command runs. -/
def Quiet (reports : List Report) : Prop :=
  Serial reports ∧ commandsAfoot reports = []

/-! ## Reports that follow each other -/

theorem commandsAfoot_concat (reports : List Report) (report : Report) :
    commandsAfoot (reports ++ [report]) = report.follow (commandsAfoot reports) :=
  List.foldl_concat ..

theorem Serial.concat {reports : List Report} (hserial : Serial reports) {report : Report}
    (hlast : (report.follow (commandsAfoot reports)).length ≤ 1) :
    Serial (reports ++ [report]) := by
  intro moment hmoment
  rcases List.prefix_concat_iff.1 hmoment with rfl | hbefore
  · rwa [commandsAfoot_concat]
  · exact hserial moment hbefore

theorem quiet_nil : Quiet [] := by
  refine ⟨?_, rfl⟩
  intro moment hmoment
  rw [List.prefix_nil.1 hmoment]
  exact Nat.zero_le 1

/-- A report that is not about a command leaves it quiet. -/
theorem Quiet.concat {reports : List Report} (hquiet : Quiet reports) {report : Report}
    (hother : report.follow [] = []) : Quiet (reports ++ [report]) := by
  obtain ⟨hserial, hnone⟩ := hquiet
  have hafter : report.follow (commandsAfoot reports) = [] := by rw [hnone, hother]
  refine ⟨hserial.concat ?_, ?_⟩
  · rw [hafter]
    exact Nat.zero_le 1
  · rw [commandsAfoot_concat, hafter]

/-- When it is quiet a command may be launched. -/
theorem Quiet.launched {reports : List Report} (hquiet : Quiet reports) (id : JobId)
    (command : Host.Command) : Serial (reports ++ [.launched id command]) := by
  apply hquiet.1.concat
  rw [hquiet.2]
  exact Nat.le_refl 1

/-- When the command has stopped it is quiet again. -/
theorem Quiet.stopped {reports : List Report} (hquiet : Quiet reports) (id : JobId)
    (command : Host.Command) :
    Quiet (reports ++ [.launched id command] ++ [.stopped id command]) := by
  have hafter : (Report.stopped id command).follow
      (commandsAfoot (reports ++ [.launched id command])) = [] := by
    rw [commandsAfoot_concat, hquiet.2]
    show [(id, command)].erase (id, command) = []
    rw [List.erase_cons_head]
  refine ⟨(hquiet.launched id command).concat ?_, ?_⟩
  · rw [hafter]
    exact Nat.zero_le 1
  · rw [commandsAfoot_concat, hafter]

/-- Commands that run one after the other leave it quiet. -/
theorem Quiet.performed {reports : List Report} (hquiet : Quiet reports) (id : JobId)
    (commands : List Host.Command) : Quiet (reports ++ performed id commands) := by
  induction commands generalizing reports with
  | nil =>
      rw [Service.performed, List.flatMap_nil, List.append_nil]
      exact hquiet
  | cons command commands ih =>
      have hnext := ih (hquiet.stopped id command)
      rwa [List.append_assoc, List.append_assoc] at hnext

/-- The start of an episode and a block of commands leave it quiet. -/
theorem Quiet.begun {reports : List Report} (hquiet : Quiet reports) (errand : Errand)
    (commands : List Host.Command) :
    Quiet (reports ++ .begun errand.id errand.request :: Service.performed errand.id commands) := by
  have hbegun : Quiet (reports ++ [.begun errand.id errand.request]) := hquiet.concat rfl
  have hblock := hbegun.performed errand.id commands
  rwa [List.append_assoc] at hblock

/-- An episode that is over leaves it quiet. -/
theorem Quiet.fate {reports : List Report} (hquiet : Quiet reports) (errand : Errand)
    (fate : Fate) : Quiet (reports ++ fate.reports errand) := by
  cases fate with
  | skipped =>
      rw [Fate.reports, List.append_nil]
      exact hquiet
  | executed block outcome =>
      rw [Fate.reports, ← List.append_assoc]
      exact (hquiet.begun errand block).concat rfl

/-- The episodes of errands that are over leave it quiet. -/
theorem Quiet.past {reports : List Report} (hquiet : Quiet reports)
    (past : List (Errand × Fate)) :
    Quiet (reports ++ past.flatMap fun x => x.2.reports x.1) := by
  induction past generalizing reports with
  | nil =>
      rw [List.flatMap_nil, List.append_nil]
      exact hquiet
  | cons x past ih =>
      rw [List.flatMap_cons, ← List.append_assoc]
      exact ih (hquiet.fate x.1 x.2)

/-- At every moment that a chronicle tells of at most one command runs. -/
theorem Chronicle.serial_reports (c : Chronicle) : Serial c.reports := by
  have hpast := quiet_nil.past c.past
  rw [List.nil_append] at hpast
  rw [reports]
  cases c.phase with
  | idle | queued =>
      rw [Phase.reports, List.append_nil]
      exact hpast.1
  | underWay errand done stuck further =>
      rw [Phase.reports, ← List.append_assoc]
      exact (hpast.begun errand done).launched errand.id stuck

/-! ## Blocks of commands -/

/-- An errand that was begun, with the commands that were launched for it. -/
abbrev Block := Errand × List Host.Command

/-- The commands of a block, each as one of its job. -/
def Block.commands (block : Block) : List JobCommand :=
  block.2.map (block.1.id, ·)

/-- The block of an errand with a fate, if it was begun. -/
def Fate.blocks (errand : Errand) : Fate → List Block
  | .skipped => []
  | .executed block _ => [(errand, block)]

/-- The block of the errand that the pool has, if it was begun. -/
def Phase.blocks : Phase → List Block
  | .idle | .queued _ => []
  | .underWay errand done stuck _ => [(errand, done ++ [stuck])]

/-- The blocks of a chronicle, in order. -/
def Chronicle.blocks (c : Chronicle) : List Block :=
  (c.past.flatMap fun x => x.2.blocks x.1) ++ c.phase.blocks

theorem launchedCommands_performed (id : JobId) (commands : List Host.Command) :
    launchedCommands (performed id commands) = commands.map (id, ·) := by
  induction commands with
  | nil => rfl
  | cons command commands ih =>
      rw [List.map_cons, ← ih]
      rfl

theorem begunJobs_performed (id : JobId) (commands : List Host.Command) :
    begunJobs (performed id commands) = [] := by
  induction commands with
  | nil => rfl
  | cons command commands ih => exact ih

theorem launchedCommands_append (earlier later : List Report) :
    launchedCommands (earlier ++ later) = launchedCommands earlier ++ launchedCommands later :=
  List.filterMap_append ..

theorem begunJobs_append (earlier later : List Report) :
    begunJobs (earlier ++ later) = begunJobs earlier ++ begunJobs later :=
  List.filterMap_append ..

/-- The commands of an episode that is over are those of its block. -/
theorem launchedCommands_fate (errand : Errand) (fate : Fate) :
    launchedCommands (fate.reports errand) = (fate.blocks errand).flatMap Block.commands := by
  cases fate with
  | skipped => rfl
  | executed block outcome =>
      have hblock := launchedCommands_performed errand.id block
      rw [Fate.reports, launchedCommands_append]
      simpa [launchedCommands, Fate.blocks, Block.commands] using hblock

theorem begunJobs_fate (errand : Errand) (fate : Fate) :
    begunJobs (fate.reports errand) =
      (fate.blocks errand).map fun x => (x.1.id, x.1.request) := by
  cases fate with
  | skipped => rfl
  | executed block outcome =>
      have hblock := begunJobs_performed errand.id block
      rw [Fate.reports, begunJobs_append]
      simpa [begunJobs, Fate.blocks] using hblock

theorem launchedCommands_phase (phase : Phase) :
    launchedCommands phase.reports = phase.blocks.flatMap Block.commands := by
  cases phase with
  | idle | queued => rfl
  | underWay errand done stuck further =>
      have hdone := launchedCommands_performed errand.id done
      rw [Phase.reports, launchedCommands_append]
      simpa [launchedCommands, Phase.blocks, Block.commands] using hdone

theorem begunJobs_phase (phase : Phase) :
    begunJobs phase.reports = phase.blocks.map fun x => (x.1.id, x.1.request) := by
  cases phase with
  | idle | queued => rfl
  | underWay errand done stuck further =>
      have hdone := begunJobs_performed errand.id done
      rw [Phase.reports, begunJobs_append]
      simpa [begunJobs, Phase.blocks] using hdone

namespace Chronicle

/-- The commands that a chronicle tells of are those of its blocks. -/
theorem launchedCommands_reports (c : Chronicle) :
    launchedCommands c.reports = c.blocks.flatMap Block.commands := by
  rw [reports, launchedCommands_append, launchedCommands_phase, blocks, List.flatMap_append,
    launchedCommands, List.filterMap_flatMap, List.flatMap_assoc]
  exact congrArg (· ++ _) (List.flatMap_congr fun x _ => launchedCommands_fate x.1 x.2)

/-- The jobs that a chronicle tells of as begun are those of its blocks. -/
theorem begunJobs_reports (c : Chronicle) :
    begunJobs c.reports = c.blocks.map fun x => (x.1.id, x.1.request) := by
  rw [reports, begunJobs_append, begunJobs_phase, blocks, List.map_append, begunJobs,
    List.filterMap_flatMap, List.map_flatMap]
  exact congrArg (· ++ _) (List.flatMap_congr fun x _ => begunJobs_fate x.1 x.2)

/-- The blocks come in the order of acceptance, and an errand has at most one. -/
theorem blocks_sublist_errands (c : Chronicle) : (c.blocks.map (·.1)).Sublist c.errands := by
  have hpast : ∀ past : List (Errand × Fate),
      ((past.flatMap fun x => x.2.blocks x.1).map (·.1)).Sublist (past.map (·.1)) := by
    intro past
    induction past with
    | nil => exact List.Sublist.slnil
    | cons x past ih =>
        rw [List.flatMap_cons, List.map_append, List.map_cons]
        cases x.2 with
        | skipped => exact ih.cons x.1
        | executed block outcome => exact ih.cons_cons x.1
  rw [blocks, errands, List.map_append]
  apply (hpast c.past).append
  cases c.phase with
  | idle => exact List.Sublist.slnil
  | queued errand => exact List.nil_sublist [errand]
  | underWay errand done stuck further => exact List.Sublist.refl [errand]

/-- Each block is from the front of what its request calls for. -/
theorem Tells.block_prefix {c : Chronicle} {surroundings : Executor.Surroundings} {crew : Crew}
    (htells : c.Tells surroundings crew) {block : Block} (hblock : block ∈ c.blocks) :
    block.2 <+: planned surroundings block.1.request := by
  rcases List.mem_append.1 hblock with hpast | hphase
  · obtain ⟨x, hx, hmem⟩ := List.mem_flatMap.1 hpast
    have hclosed := (htells.closed x hx).block
    cases hfate : x.2 with
    | skipped =>
        rw [hfate] at hmem
        cases hmem
    | executed commands outcome =>
        rw [hfate] at hmem hclosed
        rw [List.mem_singleton.1 hmem]
        exact hclosed
  · have hfits := htells.fits
    cases hnow : c.phase with
    | idle | queued =>
        rw [hnow] at hphase
        cases hphase
    | underWay errand done stuck further =>
        rw [hnow] at hphase hfits
        rw [List.mem_singleton.1 hphase, hfits.1]
        exact (List.prefix_append_right_inj done).2 (List.prefix_append [stuck] further)

end Chronicle

/-- Commands never overlap: at every moment of every run at most one runs on the host, and those
that were launched are, in order, the blocks of the jobs that were begun. There is at most one
block for each job that was accepted, in the order of acceptance, and each block is from the
front of what the request of its job calls for. -/
theorem serial_commands_of_run (start : Start) (stimuli : List Stimulus) :
    let reports := (start.state.run stimuli).crew.words
    (∀ moment, moment <+: reports → (commandsAfoot moment).length ≤ 1) ∧
    ∃ (errands : List Errand) (blocks : List Block),
      List.Forall₂ (fun exchange errand => exchange.Accepts errand.id errand.request)
        ((start.state.exchanges stimuli).filter Exchange.isAcceptance) errands ∧
      (blocks.map (·.1)).Sublist errands ∧
      begunJobs reports = blocks.map (fun block => (block.1.id, block.1.request)) ∧
      launchedCommands reports = blocks.flatMap Block.commands ∧
      ∀ block ∈ blocks, block.2 <+: planned start.surroundings block.1.request := by
  intro reports
  obtain ⟨c, hrecounts, herrands⟩ := exists_chronicle start stimuli
  have htells := hrecounts.tells
  have hreports : reports = c.reports := htells.words
  rw [hreports]
  refine ⟨c.serial_reports, c.errands, c.blocks, ?_, c.blocks_sublist_errands,
    c.begunJobs_reports, c.launchedCommands_reports, ?_⟩
  · rw [herrands]
    exact start.state.accepts_errands stimuli
  · intro block hblock
    exact htells.block_prefix hblock

end Upkeep.Service
