/-
# How far a plan is carried out, and what is reported

A request that is refused gets nothing run. The commands of any other are run in order, and the
first that does not exit with status zero is the last: nothing after it is started, and the
error that is reported is the one of this command. So how far a plan came can be read off its
outcome, and a request succeeds only if the whole plan was carried out.

A command that could not be started is not among those that were started, although it is the one
that ended the run.
-/

import Upkeep.Host.Detect
import Upkeep.Proofs.Sanction

namespace Upkeep

open Host (Command Ending HostError)

namespace Host.Ending

/-- An attempt to run a command succeeds: the command is started and exits with status zero. -/
def Succeeds (ending : Ending) : Prop :=
  ∃ stderr, ending = .exited (some 0) stderr

/-- The command of an attempt, if the attempt came so far as to start it. -/
def started (command : Command) (ending : Ending) : List Command :=
  if ending.wasStarted then [command] else []

end Host.Ending

namespace Executor

/-- What is reported about a command that did not succeed: the status with which it exited, if it
was not ended by a signal, with what it wrote to its error output, or why it was not started, or
that the action was no longer wanted. -/
inductive Reports (command : Command) : Ending → ActionError → Prop
  | exited {status : Option Int} (stderr : List UInt8) (hstatus : status ≠ some 0) :
      Reports command (.exited status stderr)
        (.host (.commandFailed command.describe status
          (Text.trim (Text.Utf8.decodeLenient stderr))))
  | notStarted (reason : String) :
      Reports command (.notStarted reason) (.host (.notStarted command.describe reason))
  | cancelled : Reports command .cancelled .cancelled
  | withdrawn : Reports command .withdrawn .cancelled

/-- An attempt succeeds, or what its result is taken for is what is reported about it. -/
theorem result_cases (command : Command) (ending : Ending) :
    ending.Succeeds ∧ ending.result command = .ok () ∧ ending.started command = [command] ∨
      ∃ error, ending.result command = .error error ∧
        Reports command ending (.ofHostError error) := by
  cases ending with
  | exited status stderr =>
      by_cases hstatus : status = some 0
      · subst hstatus
        exact .inl ⟨⟨stderr, rfl⟩, rfl, rfl⟩
      · refine .inr ⟨.commandFailed command.describe status _, ?_, .exited stderr hstatus⟩
        unfold Host.Ending.result
        split
        next hzero =>
          cases hzero
          exact absurd rfl hstatus
        next hexited =>
          cases hexited
          rfl
        all_goals next hnot => cases hnot
  | notStarted reason => exact .inr ⟨.notStarted command.describe reason, rfl, .notStarted reason⟩
  | cancelled => exact .inr ⟨.cancelled command.describe, rfl, .cancelled⟩
  | withdrawn => exact .inr ⟨.cancelled command.describe, rfl, .withdrawn⟩

/-- What carrying out commands comes to whose attempts, counted from `n`, end as `attempt` tells:
either all succeed, or the outcome is reported about the first that does not. -/
inductive CarriedOut (attempt : Nat → Command → Ending) (n : Nat) (commands : List Command) :
    List Command × Except ActionError Unit → Prop
  | wholly (hall : ∀ i command, commands[i]? = some command →
        (attempt (n + i) command).Succeeds) :
      CarriedOut attempt n commands (commands, .ok ())
  | upTo (front : List Command) (command : Command) (rest : List Command)
      (hsplit : commands = front ++ command :: rest)
      (hfront : ∀ i earlier, front[i]? = some earlier → (attempt (n + i) earlier).Succeeds)
      {error : ActionError}
      (hreports : Reports command (attempt (n + front.length) command) error) :
      CarriedOut attempt n commands
        (front ++ (attempt (n + front.length) command).started command, .error error)

section CarriedOut

variable {attempt : Nat → Command → Ending} {n : Nat} {command : Command} {rest : List Command}

/-- If the first attempt succeeds, the rest decides. -/
theorem CarriedOut.cons (hsucceeds : (attempt n command).Succeeds)
    {outcome : List Command × Except ActionError Unit}
    (hrest : CarriedOut attempt (n + 1) rest outcome) :
    CarriedOut attempt n (command :: rest) (command :: outcome.1, outcome.2) := by
  have hcons : ∀ front : List Command,
      (∀ i earlier, front[i]? = some earlier → (attempt (n + 1 + i) earlier).Succeeds) →
      ∀ i earlier, (command :: front)[i]? = some earlier → (attempt (n + i) earlier).Succeeds := by
    intro front hfront i earlier hget
    cases i with
    | zero =>
        obtain rfl : command = earlier := by simpa using hget
        exact hsucceeds
    | succ i =>
        rw [show n + (i + 1) = n + 1 + i by omega]
        exact hfront i earlier (by simpa using hget)
  cases hrest with
  | wholly hall => exact .wholly (hcons rest hall)
  | upTo front failing behind hsplit hfront hreports =>
      have hindex : n + 1 + front.length = n + (command :: front).length := by
        simp only [List.length_cons]
        omega
      rw [hindex] at hreports ⊢
      exact .upTo (command :: front) failing behind (by rw [hsplit]; rfl) (hcons front hfront)
        hreports

/-- The outcome is good exactly if all attempts succeed. -/
theorem CarriedOut.ok_iff {commands : List Command}
    {outcome : List Command × Except ActionError Unit}
    (hcarried : CarriedOut attempt n commands outcome) :
    outcome.2 = .ok () ↔
      ∀ i command, commands[i]? = some command → (attempt (n + i) command).Succeeds := by
  cases hcarried with
  | wholly hall => exact iff_of_true rfl hall
  | upTo front failing behind hsplit hfront hreports =>
      refine iff_of_false nofun fun hall => ?_
      obtain ⟨stderr, hexited⟩ := hall front.length failing (by simp [hsplit])
      rw [hexited] at hreports
      cases hreports with
      | exited _ hstatus => exact hstatus rfl

end CarriedOut

/-- A run of commands carries them out. -/
theorem carriedOut_runAll (attempt : Nat → Command → Ending) (n : Nat) (commands : List Command) :
    CarriedOut attempt n commands
      ((Host.runAll attempt n commands).1,
        (Host.runAll attempt n commands).2.mapError .ofHostError) := by
  induction commands generalizing n with
  | nil => exact .wholly (by simp)
  | cons command rest ih =>
      rw [Host.runAll]
      rcases result_cases command (attempt n command) with
        ⟨hsucceeds, hok, hstarted⟩ | ⟨error, herror, hreports⟩
      · rw [Host.Ending.started] at hstarted
        simp only [hok, hstarted]
        exact (ih (n + 1)).cons hsucceeds
      · simp only [herror]
        exact .upTo [] command rest rfl (by simp) hreports

variable {surroundings : Surroundings} {request : Request} {cancelled : Bool}

theorem Understood.parsedAction_eq {action : Action}
    (hunderstood : Understood request cancelled action) : request.parsedAction = .ok action :=
  Action.ofTag?_eq_ok_iff.2 hunderstood.tag_eq.symm

theorem Permitted.environment_eq {action : Action}
    (hpermitted : Permitted request cancelled action) :
    environment request = .ok (request.config.getD ∅) := by
  rcases environment_cases request with ⟨henv, -⟩ | ⟨name, value, -, hset, hforbidden⟩
  · exact henv
  · exact absurd (hpermitted.allowed _ hset) hforbidden

/-- The plan of a request that is admitted is the one for its action. -/
theorem Admitted.plan_eq {commands : List Command}
    (hadmitted : Admitted surroundings request cancelled commands) :
    plan surroundings request cancelled = .ok commands := by
  cases hadmitted with
  | setup hpermitted hmodule =>
      have hnone : request.moduleName.filter (fun name => !isModuleName name) = none :=
        Option.filter_eq_none_iff.2 (by simpa [isModuleName_iff] using hmodule)
      rw [plan, hpermitted.wanted, hpermitted.parsedAction_eq, hpermitted.environment_eq, hnone]
      rfl
  | update hpermitted hread hmanager =>
      rw [plan, hpermitted.wanted, hpermitted.parsedAction_eq, hpermitted.environment_eq, hread]
      simp [Except.mapError, Bind.bind, Except.bind, hmanager, pure, Except.pure]
  | reboot hpermitted =>
      rw [plan, hpermitted.wanted, hpermitted.parsedAction_eq, hpermitted.environment_eq]
      rfl

/-- If a request is admitted, its commands are carried out; otherwise it is refused for the first
reason that there is and nothing is run. This holds for every file that describes the system,
however the attempts to run commands end. -/
theorem carriedOut_of_run (attempt : Nat → Command → Ending) (path : String)
    (contents : Option (List UInt8)) (dnfInstalled : Bool) (rebootMessage : String)
    (request : Request) (cancelled : Bool) :
    let surroundings : Surroundings :=
      ⟨Host.Distribution.read path contents dnfInstalled, rebootMessage⟩
    (∀ commands, Admitted surroundings request cancelled commands →
      CarriedOut attempt 0 commands (run attempt surroundings request cancelled) ∧
      ((run attempt surroundings request cancelled).2 = .ok () ↔
        ∀ i command, commands[i]? = some command → (attempt i command).Succeeds)) ∧
    ((∀ commands, ¬ Admitted surroundings request cancelled commands) →
      ∃ error, Refused surroundings request cancelled error ∧
        run attempt surroundings request cancelled = ([], .error error)) := by
  intro surroundings
  constructor
  · intro commands hadmitted
    have hcarried := carriedOut_runAll attempt 0 commands
    have hrun : run attempt surroundings request cancelled =
        ((Host.runAll attempt 0 commands).1,
          (Host.runAll attempt 0 commands).2.mapError .ofHostError) := by
      rw [run, hadmitted.plan_eq]
    rw [hrun]
    exact ⟨hcarried, by simpa only [Nat.zero_add] using hcarried.ok_iff⟩
  · intro hnone
    rcases plan_cases surroundings request cancelled with
      ⟨error, hrefused, hplan⟩ | ⟨commands, hadmitted, -⟩
    · exact ⟨error, hrefused, by rw [run, hplan]⟩
    · exact absurd hadmitted (hnone commands)

/-! ## Requests on a Debian host -/

/-- The surroundings on a host that describes itself as Debian. -/
def debian : Surroundings where
  distribution := Host.Distribution.read Host.OsRelease.standardPath
    (some (Text.Utf8.encode "ID=debian\n")) false

/-- The first command succeeds, the second is killed. -/
def killedSecond (n : Nat) (_ : Command) : Ending :=
  if n = 1 then .exited none (Text.Utf8.encode "disk full\n") else .exited (some 0) []

/-- A request to update the host, with a configuration. -/
def updateWith (config : Option Bindings) : Request where
  action := "update"
  config := config
  timestamp := 0

/-- A configuration that says where programs are looked up. -/
def misleading : Bindings := .ofList [("PATH", "/tmp")]

/-- An update whose second command is killed has both commands started and reports the second. If
it sets a variable that it may not set, it has nothing started. -/
theorem carriedOut_of_killed :
    (Admitted debian (updateWith none) false (Host.Plan.update .apt ∅) ∧
      CarriedOut killedSecond 0 (Host.Plan.update .apt ∅)
        (run killedSecond debian (updateWith none) false) ∧
      run killedSecond debian (updateWith none) false = (Host.Plan.update .apt ∅,
        .error (.host (.commandFailed "apt-get -y upgrade" none "disk full")))) ∧
    (∀ commands, ¬ Admitted debian (updateWith (some misleading)) false commands) ∧
      ∃ error, Refused debian (updateWith (some misleading)) false error ∧
        run killedSecond debian (updateWith (some misleading)) false = ([], .error error) := by
  have hread : debian.distribution = .ok (.supported "debian" .apt) := by decide +kernel
  have hadmitted : Admitted debian (updateWith none) false (Host.Plan.update .apt ∅) :=
    .update ⟨⟨rfl, rfl⟩, by decide +kernel⟩ hread rfl
  have hforbidden : ∀ action, ¬ Permitted (updateWith (some misleading)) false action := by
    intro action hpermitted
    exact absurd (hpermitted.allowed ("PATH", "/tmp") (by decide +kernel)) (by decide +kernel)
  have hnone : ∀ commands, ¬ Admitted debian (updateWith (some misleading)) false commands := by
    intro commands hadmitted
    cases hadmitted with
    | setup hpermitted | update hpermitted | reboot hpermitted =>
        exact hforbidden _ hpermitted
  refine ⟨⟨hadmitted, ?_, by decide +kernel⟩, hnone, ?_⟩
  · exact ((carriedOut_of_run killedSecond _ _ _ _ (updateWith none) false).1 _ hadmitted).1
  · exact (carriedOut_of_run killedSecond _ _ _ _ (updateWith (some misleading)) false).2 hnone

/-- A request to restart the host. -/
def rebootRequest : Request where
  action := "reboot"
  timestamp := 0

/-- On a host without programs the one command of a restart does not exit with status zero, but
it is not among the commands that were started either. -/
theorem unfound_not_started :
    let host : Host.Scripted := ⟨[], [], .usual⟩
    let command := Host.Plan.reboot Host.Plan.defaultRebootMessage
    Admitted debian rebootRequest false [command] ∧ ¬ (host.attempt 0 command).Succeeds ∧
      run host.attempt debian rebootRequest false = ([], .error (.host (.notStarted
        command.describe PathFault.notFound.message))) ∧
      (run host.attempt debian rebootRequest false).1 ≠ [command].take 1 := by
  intro host command
  have hadmitted : Admitted debian rebootRequest false [command] :=
    .reboot ⟨⟨rfl, rfl⟩, by decide +kernel⟩
  have hending : host.attempt 0 command = .notStarted PathFault.notFound.message := by
    decide +kernel
  have hrun : run host.attempt debian rebootRequest false = ([], .error (.host (.notStarted
      command.describe PathFault.notFound.message))) := by
    rw [run, hadmitted.plan_eq]
    simp only [Host.runAll, hending]
    rfl
  refine ⟨hadmitted, ?_, hrun, ?_⟩
  · rintro ⟨stderr, hexited⟩
    rw [hending] at hexited
    cases hexited
  · rw [hrun]
    exact (List.cons_ne_nil command []).symm

end Executor

end Upkeep
