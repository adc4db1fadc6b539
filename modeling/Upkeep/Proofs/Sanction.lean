/-
# What may be run on the host

Requests come from outside, and what is run for them is run with all rights. So a request has
very little say in it. Its action chooses one of three plans, and the commands of a plan are fixed,
word by word. A request to set the host up again may name one module, by a plain word that no
program takes for an option. And it may set proxies, under the names that are usual for them.

`Sanctioned` says what may be left of a request in a command, without regard to how a plan is made.
Every command that is started for a request is sanctioned by it, whatever the host is like and
however its commands end. A request that sets any other variable gets nothing run, not even where
its action has no use for variables.
-/

import Upkeep.Proofs.Bindings
import Upkeep.Proofs.Service.Commands

namespace Upkeep

namespace Executor

/-! ## What a request may come to -/

/-- A nonempty word of ASCII letters, digits, underscores and hyphens that no program takes for an
option. -/
structure IsPlainWord (word : String) : Prop where
  nonempty : word ≠ ""
  plain : ∀ c ∈ word.toList, 'a' ≤ c ∧ c ≤ 'z' ∨ 'A' ≤ c ∧ c ≤ 'Z' ∨ '0' ≤ c ∧ c ≤ '9' ∨
    c = '_' ∨ c = '-'
  no_option : word.toList.head? ≠ some '-'

/-- The words of the commands for an action in which no text of a request stands. -/
def fixedWords (rebootMessage : String) : Action → List (List String)
  | .update =>
    [["apt-get", "update"], ["apt-get", "-y", "upgrade"], ["dnf", "-y", "upgrade"],
      ["yum", "-y", "update"], ["pacman", "-Syu", "--noconfirm"],
      ["zypper", "--non-interactive", "update"], ["apk", "update"], ["apk", "upgrade"]]
  | .reinit => [["cloud-init", "clean", "--logs"], ["cloud-init", "init"]]
  | .reboot => [["shutdown", "-r", "+1", rebootMessage]]

/-- The entries of a request's configuration. -/
def configured (request : Request) : List (String × String) :=
  (request.config.getD ∅).entries

/-- A command is one that may be run for a request. Its words are fixed by the action, except that
a module may be named. Its variables are those that the request sets, if its action has a use for
them, and one by which the package tools of Debian are told to ask no questions. -/
structure Sanctioned (surroundings : Surroundings) (request : Request) (command : Host.Command) :
    Prop where
  words : ∃ action : Action, request.action = action.tag ∧
    (command.words ∈ fixedWords surroundings.rebootMessage action ∨
      action = .reinit ∧ ∃ word, request.moduleName = some word ∧ IsPlainWord word ∧
        command.words = ["cloud-init", "single", "--name", word, "--frequency", "always"])
  env : ∀ name value, (name, value) ∈ command.env.entries ↔
    request.action ≠ "reboot" ∧ (name, value) ∈ configured request ∨
      command.program = "apt-get" ∧ name = "DEBIAN_FRONTEND" ∧ value = "noninteractive"
  allowed : ∀ entry ∈ configured request, entry.1 ∈ allowedVariables

/-! ## The checks of a request -/

/-- A character may occur in the name of a module if it is an ASCII letter, a digit, an underscore
or a hyphen. -/
theorem isModuleCharacter_iff {c : Char} : isModuleCharacter c = true ↔
    'a' ≤ c ∧ c ≤ 'z' ∨ 'A' ≤ c ∧ c ≤ 'Z' ∨ '0' ≤ c ∧ c ≤ '9' ∨ c = '_' ∨ c = '-' := by
  show ((decide ('A' ≤ c ∧ c ≤ 'Z') || decide ('a' ≤ c) && decide (c ≤ 'z')) ||
    decide ('0' ≤ c) && decide (c ≤ '9') || c == '_' || c == '-') = true ↔ _
  simp only [Bool.or_eq_true, Bool.and_eq_true, decide_eq_true_eq, beq_iff_eq]
  tauto

/-- What passes as the name of a module is a plain word. -/
theorem isModuleName_iff {name : String} : isModuleName name = true ↔ IsPlainWord name := by
  simp only [isModuleName, Bool.and_eq_true, Bool.not_eq_true', List.isEmpty_eq_false_iff,
    bne_iff_ne, List.all_eq_true]
  constructor
  · rintro ⟨⟨hnonempty, hhead⟩, hall⟩
    refine ⟨?_, fun c hc => isModuleCharacter_iff.1 (hall c hc), hhead⟩
    rintro rfl
    exact hnonempty rfl
  · rintro ⟨hnonempty, hplain, hhead⟩
    refine ⟨⟨?_, hhead⟩, fun c hc => isModuleCharacter_iff.2 (hplain c hc)⟩
    intro hempty
    exact hnonempty (String.toList_inj.1 hempty)

/-- The variables of a request are taken as they are, or not at all. -/
theorem environment_cases (request : Request) :
    environment request = .ok (request.config.getD ∅) ∧
      (∀ entry ∈ configured request, entry.1 ∈ allowedVariables) ∨
    ∃ name value, environment request = .error (.invalidConfig name) ∧
      (name, value) ∈ configured request ∧ name ∉ allowedVariables := by
  simp only [environment]
  split
  next name hfound =>
    right
    obtain ⟨⟨_, value⟩, hset, rfl⟩ := List.mem_map.1 (List.mem_of_find?_eq_some hfound)
    exact ⟨_, value, rfl, hset, by simpa [isAllowedVariable] using List.find?_some hfound⟩
  next hnone =>
    exact .inl ⟨rfl, by simpa [Bindings.names, configured, isAllowedVariable] using hnone⟩

/-! ## Requests that are refused and requests that have a plan -/

section Judging

variable (surroundings : Surroundings) (request : Request) (cancelled : Bool)

/-- A request is still wanted and names an action. -/
structure Understood (action : Action) : Prop where
  wanted : cancelled = false
  tag_eq : request.action = action.tag

/-- A request is understood and sets no variable that it may not set. -/
structure Permitted (action : Action) : Prop extends Understood request cancelled action where
  allowed : ∀ entry ∈ configured request, entry.1 ∈ allowedVariables

/-- Why a request is refused. Each reason is given only if there is none of those before it. -/
inductive Refused : ActionError → Prop
  | unwanted (hcancelled : cancelled = true) : Refused .cancelled
  | unknownAction (hwanted : cancelled = false)
      (hunknown : ∀ action : Action, request.action ≠ action.tag) :
      Refused (.unknownAction ⟨request.action⟩)
  | forbiddenVariable {action : Action} (hunderstood : Understood request cancelled action)
      {name value : String} (hset : (name, value) ∈ configured request)
      (hforbidden : name ∉ allowedVariables) : Refused (.invalidConfig name)
  | badModule (hpermitted : Permitted request cancelled .reinit) {name : String}
      (hname : request.moduleName = some name) (hbad : ¬ IsPlainWord name) :
      Refused (.invalidModule name)
  | unknownDistribution (hpermitted : Permitted request cancelled .update)
      {error : Host.HostError} (hunread : surroundings.distribution = .error error) :
      Refused (.ofHostError error)
  | unsupportedDistribution (hpermitted : Permitted request cancelled .update)
      {distribution : Host.Distribution} (hread : surroundings.distribution = .ok distribution)
      (hnone : distribution.manager? = none) :
      Refused (.host (.unsupportedDistribution distribution.id))

/-- The commands that are to be run for a request that is not refused. -/
inductive Admitted : List Host.Command → Prop
  | setup (hpermitted : Permitted request cancelled .reinit)
      (hmodule : ∀ name ∈ request.moduleName, IsPlainWord name) :
      Admitted (Host.Plan.setup request.moduleName (request.config.getD ∅))
  | update (hpermitted : Permitted request cancelled .update)
      {distribution : Host.Distribution} (hread : surroundings.distribution = .ok distribution)
      {manager : Host.PackageManager} (hmanager : distribution.manager? = some manager) :
      Admitted (Host.Plan.update manager (request.config.getD ∅))
  | reboot (hpermitted : Permitted request cancelled .reboot) :
      Admitted [Host.Plan.reboot surroundings.rebootMessage]

end Judging

variable {surroundings : Surroundings} {request : Request} {cancelled : Bool}

/-- A tag that is not understood is that of no action. -/
theorem unknown_of_parsedAction {unknown : UnknownAction}
    (haction : request.parsedAction = .error unknown) :
    unknown = ⟨request.action⟩ ∧ ∀ action : Action, request.action ≠ action.tag := by
  constructor
  · unfold Request.parsedAction Action.ofTag? at haction
    split at haction
    · cases haction
    · exact (Except.error.inj haction).symm
  · intro action htag
    rw [Request.parsedAction, Action.ofTag?_eq_ok_iff.2 htag.symm] at haction
    cases haction

/-- A request is either refused for the first reason that there is, or its plan is the one for its
action. -/
theorem plan_cases (surroundings : Surroundings) (request : Request) (cancelled : Bool) :
    (∃ error, Refused surroundings request cancelled error ∧
      plan surroundings request cancelled = .error error) ∨
    ∃ commands, Admitted surroundings request cancelled commands ∧
      plan surroundings request cancelled = .ok commands := by
  unfold plan
  cases hcancelled : cancelled with
  | true => exact .inl ⟨_, .unwanted rfl, rfl⟩
  | false =>
  cases haction : request.parsedAction with
  | error unknown =>
      obtain ⟨rfl, hunknown⟩ := unknown_of_parsedAction haction
      exact .inl ⟨_, .unknownAction rfl hunknown, rfl⟩
  | ok action =>
  have hunderstood : Understood request false action :=
    ⟨rfl, (Action.ofTag?_eq_ok_iff.1 haction).symm⟩
  rcases environment_cases request with ⟨henv, hallowed⟩ | ⟨name, value, henv, hset, hforbidden⟩
  · rw [henv]
    have hpermitted : Permitted request false action := ⟨hunderstood, hallowed⟩
    cases action with
    | reinit =>
        cases hbad : request.moduleName.filter fun name => !isModuleName name with
        | some name =>
            obtain ⟨hname, hnot⟩ := Option.filter_eq_some_iff.1 hbad
            refine .inl ⟨_, .badModule hpermitted hname ?_, rfl⟩
            rw [← isModuleName_iff]
            simpa using hnot
        | none =>
            refine .inr ⟨_, .setup hpermitted ?_, rfl⟩
            intro name hname
            simpa [isModuleName_iff] using Option.filter_eq_none_iff.1 hbad name hname
    | update =>
        cases hread : surroundings.distribution with
        | error error => exact .inl ⟨_, .unknownDistribution hpermitted hread, rfl⟩
        | ok distribution =>
        cases hmanager : distribution.manager? with
        | none =>
            refine .inl ⟨_, .unsupportedDistribution hpermitted hread hmanager, ?_⟩
            simp [Except.mapError, Bind.bind, Except.bind, hmanager, throw, throwThe,
              MonadExceptOf.throw]
        | some manager =>
            refine .inr ⟨_, .update hpermitted hread hmanager, ?_⟩
            simp [Except.mapError, Bind.bind, Except.bind, hmanager, pure, Except.pure]
    | reboot => exact .inr ⟨_, .reboot hpermitted, rfl⟩
  · rw [henv]
    exact .inl ⟨_, .forbiddenVariable hunderstood hset hforbidden, rfl⟩

theorem admitted_of_plan {commands : List Host.Command}
    (hplan : plan surroundings request cancelled = .ok commands) :
    Admitted surroundings request cancelled commands := by
  rcases plan_cases surroundings request cancelled with ⟨error, -, herror⟩ | ⟨_, hadmitted, hok⟩
  · rw [hplan] at herror
    cases herror
  · rw [hplan] at hok
    cases hok
    exact hadmitted

/-! ## The steps of a plan -/

/-- Nothing is set for a command but, for the package tools of Debian, that they ask no
questions. -/
def IsBare (command : Host.Command) : Prop :=
  ∀ name value, (name, value) ∈ command.env.entries ↔
    command.program = "apt-get" ∧ name = "DEBIAN_FRONTEND" ∧ value = "noninteractive"

theorem isBare_plain {program : String} (hother : program ≠ "apt-get") (args : List String) :
    IsBare (Host.Plan.plain program args) := by
  intro name value
  constructor
  · intro hmem
    cases hmem
  · rintro ⟨hprogram, -⟩
    exact absurd hprogram hother

theorem isBare_aptGet (args : List String) : IsBare (Host.Plan.aptGet args) := by
  intro name value
  rw [Bindings.mem_entries_iff]
  show (Bindings.insert ∅ "DEBIAN_FRONTEND" "noninteractive").find? name = some value ↔
    "apt-get" = "apt-get" ∧ _
  rw [Bindings.find?_insert]
  by_cases hname : name = "DEBIAN_FRONTEND"
  · simp [hname, eq_comm]
  · simp only [hname, if_false, false_and, and_false, iff_false]
    nofun

/-- A command that may be a step of a plan: it is bare, and its words stand for the action. -/
structure Step (surroundings : Surroundings) (request : Request) (action : Action)
    (step : Host.Command) : Prop where
  bare : IsBare step
  words : step.words ∈ fixedWords surroundings.rebootMessage action ∨
    action = .reinit ∧ ∃ word, request.moduleName = some word ∧ IsPlainWord word ∧
      step.words = ["cloud-init", "single", "--name", word, "--frequency", "always"]

theorem step_of_mem_updateSteps (surroundings : Surroundings) (request : Request)
    {manager : Host.PackageManager} {step : Host.Command}
    (hstep : step ∈ Host.Plan.updateSteps manager) : Step surroundings request .update step := by
  have hplain : ∀ program args, program ≠ "apt-get" →
      program :: args ∈ fixedWords surroundings.rebootMessage .update →
      Step surroundings request .update (Host.Plan.plain program args) :=
    fun program args hother hwords => ⟨isBare_plain hother args, .inl hwords⟩
  have hapt : ∀ args, "apt-get" :: args ∈ fixedWords surroundings.rebootMessage .update →
      Step surroundings request .update (Host.Plan.aptGet args) :=
    fun args hwords => ⟨isBare_aptGet args, .inl hwords⟩
  cases manager with
  | apt =>
      rcases List.mem_pair.1 hstep with rfl | rfl
      · exact hapt _ (by simp [fixedWords])
      · exact hapt _ (by simp [fixedWords])
  | apk =>
      rcases List.mem_pair.1 hstep with rfl | rfl
      · exact hplain _ _ (by decide) (by simp [fixedWords])
      · exact hplain _ _ (by decide) (by simp [fixedWords])
  | dnf | yum | pacman | zypper =>
      obtain rfl := List.mem_singleton.1 hstep
      exact hplain _ _ (by decide) (by simp [fixedWords])

theorem step_of_mem_setupSteps (surroundings : Surroundings)
    (hplain : ∀ name ∈ request.moduleName, IsPlainWord name) {step : Host.Command}
    (hstep : step ∈ Host.Plan.setupSteps request.moduleName) :
    Step surroundings request .reinit step := by
  cases hmodule : request.moduleName with
  | none =>
      rw [hmodule] at hstep
      rcases List.mem_pair.1 hstep with rfl | rfl
      · exact ⟨isBare_plain (by decide) _, .inl (by simp [fixedWords, Host.Plan.plain,
          Host.Command.words])⟩
      · exact ⟨isBare_plain (by decide) _, .inl (by simp [fixedWords, Host.Plan.plain,
          Host.Command.words])⟩
  | some word =>
      rw [hmodule] at hstep
      obtain rfl := List.mem_singleton.1 hstep
      exact ⟨isBare_plain (by decide) _, .inr ⟨rfl, word, hmodule, hplain word hmodule, rfl⟩⟩

theorem step_reboot (surroundings : Surroundings) (request : Request) :
    Step surroundings request .reboot (Host.Plan.reboot surroundings.rebootMessage) :=
  ⟨isBare_plain (by decide) _, .inl List.mem_cons_self⟩

/-! ## Commands that are started -/

/-- A step that is completed by the variables of a request is sanctioned by it. -/
theorem Step.sanctioned_withEnv {action : Action} {step : Host.Command}
    (hstep : Step surroundings request action step) (htag : request.action = action.tag)
    (hreboot : action ≠ .reboot)
    (hallowed : ∀ entry ∈ configured request, entry.1 ∈ allowedVariables) :
    Sanctioned surroundings request (step.withEnv (request.config.getD ∅)) where
  words := ⟨action, htag, hstep.words⟩
  env := by
    intro name value
    have hother : request.action ≠ "reboot" := by
      rw [htag]
      cases action <;> simp_all [Action.tag]
    have hfree : (name, value) ∈ configured request → step.env.find? name = none := by
      intro hentry
      by_contra hfound
      obtain ⟨held, hheld⟩ := Option.ne_none_iff_exists'.1 hfound
      obtain ⟨-, hname, -⟩ := (hstep.bare name held).1 ((Bindings.mem_entries_iff ..).2 hheld)
      have hset : name ∈ allowedVariables := hallowed _ hentry
      rw [hname] at hset
      exact absurd hset (by decide)
    show (name, value) ∈ (step.env.complete _).entries ↔ _
    rw [Bindings.mem_entries_complete, hstep.bare name value, or_comm]
    exact or_congr_left ⟨fun h => ⟨hother, h.2⟩, fun h => ⟨hfree h.2, h.2⟩⟩
  allowed := hallowed

/-- Every command of a plan is sanctioned by the request. -/
theorem sanctioned_of_mem_plan {cancelled : Bool} {commands : List Host.Command}
    (hplan : plan surroundings request cancelled = .ok commands) :
    ∀ command ∈ commands, Sanctioned surroundings request command := by
  intro command hcommand
  cases admitted_of_plan hplan with
  | update hpermitted =>
      obtain ⟨step, hstep, rfl⟩ := List.mem_map.1 hcommand
      exact (step_of_mem_updateSteps surroundings request hstep).sanctioned_withEnv
        hpermitted.tag_eq nofun hpermitted.allowed
  | setup hpermitted hmodule =>
      obtain ⟨step, hstep, rfl⟩ := List.mem_map.1 hcommand
      exact (step_of_mem_setupSteps surroundings hmodule hstep).sanctioned_withEnv
        hpermitted.tag_eq nofun hpermitted.allowed
  | reboot hpermitted =>
      obtain rfl := List.mem_singleton.1 hcommand
      have hstep := step_reboot surroundings request
      refine ⟨⟨.reboot, hpermitted.tag_eq, hstep.words⟩, fun name value => ?_,
        hpermitted.allowed⟩
      rw [hstep.bare name value, hpermitted.tag_eq]
      exact (or_iff_right fun h => h.1 rfl).symm

/-- Only commands of the list are started, and none after one that did not succeed. -/
theorem runAll_sublist (attempt : Nat → Host.Command → Host.Ending) (n : Nat)
    (commands : List Host.Command) : (Host.runAll attempt n commands).1.Sublist commands := by
  induction commands generalizing n with
  | nil => exact List.Sublist.slnil
  | cons command rest ih =>
      have hfirst : (if (attempt n command).wasStarted then [command] else []).Sublist
          [command] := by
        split
        · exact List.Sublist.refl _
        · exact List.nil_sublist _
      simp only [Host.runAll]
      split
      · exact hfirst.trans (List.singleton_sublist.2 List.mem_cons_self)
      · exact hfirst.append (ih (n + 1))

/-- Whatever a request says, whatever the host is like and however the commands end, each command
that is started for the request is sanctioned by it, and none is started for a request that sets
a variable which is not one of the ten that a request may set. -/
theorem sanctioned_of_run (attempt : Nat → Host.Command → Host.Ending)
    (surroundings : Surroundings) (request : Request) (cancelled : Bool) :
    (∀ command ∈ (run attempt surroundings request cancelled).1,
      Sanctioned surroundings request command) ∧
    ((∃ entry ∈ configured request, entry.1 ∉ allowedVariables) →
      (run attempt surroundings request cancelled).1 = []) := by
  have hsanctioned : ∀ command ∈ (run attempt surroundings request cancelled).1,
      Sanctioned surroundings request command := by
    intro command hcommand
    unfold run at hcommand
    split at hcommand
    · cases hcommand
    next commands hplan =>
      have hmem := (runAll_sublist attempt 0 commands).subset hcommand
      exact sanctioned_of_mem_plan hplan command hmem
  refine ⟨hsanctioned, ?_⟩
  rintro ⟨entry, hentry, hforbidden⟩
  refine List.eq_nil_iff_forall_not_mem.2 fun command hcommand => ?_
  exact hforbidden ((hsanctioned command hcommand).allowed entry hentry)

end Executor

/-- In every run of the service, each command that is launched for a job is sanctioned by the
request for which the job was accepted. -/
theorem Service.sanctioned_of_launched (start : Start) (stimuli : List Stimulus)
    {id : JobId} {command : Host.Command}
    (hlaunched : (id, command) ∈ launchedCommands (start.state.run stimuli).crew.words) :
    ∃ exchange ∈ start.state.exchanges stimuli, ∃ request, exchange.Accepts id request ∧
      Executor.Sanctioned start.surroundings request command := by
  obtain ⟨c, hrecounts, herrands⟩ := exists_chronicle start stimuli
  rw [hrecounts.tells.words, c.launchedCommands_reports] at hlaunched
  obtain ⟨block, hblock, hmem⟩ := List.mem_flatMap.1 hlaunched
  obtain ⟨_, hcommand, heq⟩ := List.mem_map.1 hmem
  obtain ⟨rfl, rfl⟩ := Prod.mk.inj heq
  have herrand : block.1 ∈ c.errands :=
    c.blocks_sublist_errands.subset (List.mem_map_of_mem hblock)
  rw [herrands] at herrand
  obtain ⟨exchange, hexchange, haccepts⟩ := State.exists_accepts_of_mem_errands herrand
  refine ⟨exchange, hexchange, block.1.request, haccepts, ?_⟩
  have hplanned := (hrecounts.tells.block_prefix hblock).subset hcommand
  unfold planned at hplanned
  cases hplan : Executor.plan start.surroundings block.1.request false with
  | error error =>
      rw [hplan] at hplanned
      cases hplanned
  | ok commands =>
      rw [hplan] at hplanned
      exact Executor.sanctioned_of_mem_plan hplan _ hplanned

end Upkeep
