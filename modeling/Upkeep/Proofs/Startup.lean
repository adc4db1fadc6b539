/-
# From accepted settings to a running service

The settings are checked when they are read, and again by the parts of the service that are made
of them: the authenticator refuses short secrets, the pool raises its sizes to one, the limiter
counts with its rate. An accepted configuration meets everything that these parts ask, so none
of them refuses or changes it. Two sizes are bounded from above as well, by what a queue and a
list of workers can hold, and these bounds no check knows. A configuration beyond one of them is
accepted all the same, and the start breaks down over it.
-/

import Upkeep.Proofs.Checks
import Upkeep.Proofs.Decimal.Dyadic
import Upkeep.Proofs.Signature
import Upkeep.Startup

namespace Upkeep

namespace Config

/-! ## What was checked -/

/-- How an accepted configuration was come by: the checks it has passed, and the sizes it was
made from. -/
structure Accepted (environment : Bindings) (config : Config) : Prop where
  secret : validateSecret config.secret = .ok ()
  rate : checkRate config.rate = .ok ()
  workers : ∃ workers, config.workers = max workers 1 ∧
    valueOr environment .workers Pool.defaultWorkers .noPositiveInteger
      (Decimal.natBelow? UInt64.size) = .ok workers
  backlog : ∃ backlog, config.backlog = max backlog 1 ∧
    valueOr environment .backlog Pool.defaultBacklog .noPositiveInteger
      (Decimal.natBelow? UInt64.size) = .ok backlog
  burst : ∃ burst, config.burst = max burst 1 ∧
    valueOr environment .burst RateLimit.defaultBurst .noPositiveInteger
      (Decimal.natBelow? UInt32.size) = .ok burst

theorem accepted_of_ofVariables {environment : Bindings} {config : Config}
    (hread : ofVariables environment = .ok config) : Accepted environment config := by
  unfold ofVariables at hread
  cases hsecret : (environment.find? Setting.secret.variable).filter fun s => !s.isEmpty with
  | none =>
    rw [hsecret] at hread
    cases hread
  | some secret =>
    simp only [hsecret, pure_bind, bind_eq_ok_iff] at hread
    obtain ⟨⟨⟩, hvalid, hread⟩ := hread
    -- What follows is the same whether the level of the log is given or not.
    split at hread
    case' h_2 => obtain ⟨level, -, hread⟩ := bind_eq_ok_iff.1 hread
    all_goals
      simp only [bind_eq_ok_iff] at hread
      obtain ⟨rate, -, ⟨⟩, hrate, port, -, workers, hworkers, backlog, hbacklog, burst, hburst,
        trustProxy, -, ⟨⟩⟩ := hread
      exact ⟨hvalid, hrate, ⟨workers, rfl, hworkers⟩, ⟨backlog, rfl, hbacklog⟩,
        ⟨burst, rfl, hburst⟩⟩

/-- A whole number that is read, or its default, is below the bound of its type. -/
theorem lt_of_valueOr {environment : Bindings} {setting : Setting} {default bound n : Nat}
    {objection : Objection} (hdefault : default < bound)
    (hread : valueOr environment setting default objection (Decimal.natBelow? bound) = .ok n) :
    n < bound := by
  unfold valueOr at hread
  split at hread
  · cases hread
    exact hdefault
  · split at hread
    next value _ number hnumber =>
      cases hread
      have hbound := Option.filter_eq_some_iff.1 hnumber
      simpa using hbound.2
    · cases hread

/-! ## What the parts ask -/

/-- The check of a secret when it is read is the one that the authenticator makes. -/
theorem validateSecret_eq_ok_iff {secret : String} :
    validateSecret secret = .ok () ↔
      ∃ authenticator, Authenticator.ofSecret (Text.Utf8.encode secret) = .ok authenticator ∧
        authenticator.secret = Text.Utf8.encode secret := by
  have hlength : (Text.Utf8.encode secret).length = secret.utf8ByteSize := rfl
  rw [validateSecret, Authenticator.ofSecret]
  by_cases hlong : minSecretLength ≤ secret.utf8ByteSize
  · rw [if_neg (Nat.not_lt.2 hlong), dif_pos (hlength ▸ hlong)]
    exact ⟨fun _ => ⟨_, rfl, rfl⟩, fun _ => rfl⟩
  · rw [if_pos (Nat.lt_of_not_le hlong), dif_neg (hlength ▸ hlong)]
    constructor
    · intro h
      cases h
    · rintro ⟨authenticator, h, -⟩
      split at h <;> cases h

/-- A rate passes its check when it is a positive number. -/
theorem checkRate_eq_ok_iff {rate : Float} :
    checkRate rate = .ok () ↔
      ∃ mantissa exponent, 0 < mantissa ∧
        Decimal.Dyadic.ofFloat rate = .finite false mantissa exponent := by
  rw [← Decimal.Dyadic.isFinite_and_pos_iff, checkRate]
  split
  next h => simpa using h
  next h => simpa using h

/-- What the parts of the service ask of the settings they are made of. -/
structure Serviceable (config : Config) : Prop where
  /-- The authenticator takes the secret as it is. -/
  secret : ∃ authenticator,
    Authenticator.ofSecret (Text.Utf8.encode config.secret) = .ok authenticator ∧
      authenticator.secret = Text.Utf8.encode config.secret
  /-- The pool takes both sizes as they are, however often it raises them to one. -/
  sizes : ∀ timeout, Pool.Settings.of config.workers config.backlog timeout =
    ⟨config.workers, config.backlog, timeout⟩
  workers_lt : config.workers < UInt64.size
  backlog_lt : config.backlog < UInt64.size
  /-- The rate is a positive number, neither infinite nor undefined. -/
  rate : ∃ mantissa exponent, 0 < mantissa ∧
    Decimal.Dyadic.ofFloat config.rate = .finite false mantissa exponent
  burst_pos : 1 ≤ config.burst
  burst_lt : config.burst < UInt32.size

theorem Accepted.serviceable {environment : Bindings} {config : Config}
    (haccepted : Accepted environment config) : Serviceable config := by
  obtain ⟨workers, hworkers, hworkersRead⟩ := haccepted.workers
  obtain ⟨backlog, hbacklog, hbacklogRead⟩ := haccepted.backlog
  obtain ⟨burst, hburst, hburstRead⟩ := haccepted.burst
  have hworkersLt := lt_of_valueOr (by decide) hworkersRead
  have hbacklogLt := lt_of_valueOr (by decide) hbacklogRead
  have hburstLt := lt_of_valueOr (by decide) hburstRead
  exact {
    secret := validateSecret_eq_ok_iff.1 haccepted.secret
    sizes := fun timeout => by
      rw [Pool.Settings.of, hworkers, hbacklog, Nat.max_eq_left (Nat.le_max_right ..),
        Nat.max_eq_left (Nat.le_max_right ..)]
    workers_lt := by
      rw [hworkers]
      exact Nat.max_lt.2 ⟨hworkersLt, by decide⟩
    backlog_lt := by
      rw [hbacklog]
      exact Nat.max_lt.2 ⟨hbacklogLt, by decide⟩
    rate := checkRate_eq_ok_iff.1 haccepted.rate
    burst_pos := hburst ▸ Nat.le_max_right ..
    burst_lt := by
      rw [hburst]
      exact Nat.max_lt.2 ⟨hburstLt, by decide⟩ }

/-- Sizes of which a queue and a list of workers can be made. -/
structure Holdable (config : Config) : Prop where
  backlog : config.backlog ≤ Pool.maxCapacity
  workers : config.workers ≤ Pool.maxWorkers

end Config

/-! ## The start -/

namespace Startup

/-- A host on which a log can be opened and the port is free. -/
structure Hosts (grounds : Grounds) (config : Config) : Prop where
  log : ∃ logFile, openLog grounds config = .ok logFile
  port : config.port ∉ grounds.takenPorts

variable {environment : Bindings} {config : Config}

/-- On a host that takes it in, an accepted configuration is started as far as its sizes allow. -/
theorem outcome_start {grounds : Grounds} {options : Options}
    (hread : Config.ofVariables environment = .ok config)
    (hhosts : Hosts grounds (override config options)) :
    (start grounds options environment).outcome =
      if Pool.maxCapacity < config.backlog then .error .queueTooLong
      else if Pool.maxWorkers < config.workers then .error .tooManyWorkers
      else .ok (override config options) := by
  obtain ⟨logFile, hlog⟩ := hhosts.log
  have hbacklog : (override config options).backlog = config.backlog := rfl
  have hworkers : (override config options).workers = config.workers := rfl
  simp only [start, hread, hlog, hbacklog, hworkers, if_neg hhosts.port]
  split
  · rfl
  · split
    · rfl
    · rfl

/-- An accepted configuration suits every part of the service, and on a host that takes it in it
starts exactly if its queue and its workers can be held; otherwise the start breaks down. -/
theorem starts_iff_of_ofVariables (hread : Config.ofVariables environment = .ok config) :
    config.Serviceable ∧
      ∀ grounds options, Hosts grounds (override config options) →
        ((start grounds options environment).outcome = .ok (override config options) ↔
            config.Holdable) ∧
          ((start grounds options environment).outcome = .error .queueTooLong ↔
            Pool.maxCapacity < config.backlog) ∧
          ((start grounds options environment).outcome = .error .tooManyWorkers ↔
            config.backlog ≤ Pool.maxCapacity ∧ Pool.maxWorkers < config.workers) := by
  refine ⟨(Config.accepted_of_ofVariables hread).serviceable, fun grounds options hhosts => ?_⟩
  rw [outcome_start hread hhosts]
  have hholdable : config.Holdable ↔
      config.backlog ≤ Pool.maxCapacity ∧ config.workers ≤ Pool.maxWorkers :=
    ⟨fun h => ⟨h.backlog, h.workers⟩, fun h => ⟨h.1, h.2⟩⟩
  rw [hholdable]
  by_cases hbacklog : Pool.maxCapacity < config.backlog
  · simp [hbacklog, Nat.not_le.2 hbacklog]
  · by_cases hworkers : Pool.maxWorkers < config.workers
    · simp [hbacklog, hworkers, Nat.not_lt.1 hbacklog, Nat.not_le.2 hworkers]
    · simp [hbacklog, hworkers, Nat.not_lt.1 hbacklog, Nat.not_lt.1 hworkers]

/-- A secret that is long enough, with a value for one more setting. -/
def onlyWith (setting : Setting) (value : String) : Bindings :=
  .ofList [(Setting.secret.variable, "0123456789abcdef0123456789abcdef"),
    (setting.variable, value)]

/-- Without further settings no log file is opened and no port is taken. -/
theorem hosts_of_logFile (hlog : config.logFile = none) : Hosts {} (override config {}) := by
  have hnone : (override config {}).logFile = none := hlog
  refine ⟨⟨none, ?_⟩, List.not_mem_nil⟩
  rw [openLog, hnone]
  rfl

/-- The longest queue that can be held is accepted, and the service starts with it. -/
theorem starts_iff_of_longestQueue :
    ∃ config, Config.ofVariables (onlyWith .backlog "2305843009213693951") = .ok config ∧
      config.Serviceable ∧ config.backlog = Pool.maxCapacity ∧
      (start {} {} (onlyWith .backlog "2305843009213693951")).outcome =
        .ok (override config {}) := by
  have hread : ((Config.ofVariables (onlyWith .backlog "2305843009213693951")).toOption.map
      fun config => (config.backlog, config.workers, config.logFile)) =
        some (Pool.maxCapacity, Pool.defaultWorkers, none) := by
    decide +kernel
  obtain ⟨config, hconfig, hsizes⟩ := exists_of_toOption_map hread
  obtain ⟨hbacklog, hworkers, hlog⟩ : config.backlog = Pool.maxCapacity ∧
      config.workers = Pool.defaultWorkers ∧ config.logFile = none := by
    simpa using hsizes
  have hstart := starts_iff_of_ofVariables hconfig
  refine ⟨config, hconfig, hstart.1, hbacklog,
    (hstart.2 {} {} (hosts_of_logFile hlog)).1.2 ⟨hbacklog.le, ?_⟩⟩
  rw [hworkers]
  decide

/-- A queue that is longer by one place is accepted as well, and the start breaks down. -/
theorem overlongQueue_accepted :
    ∃ config, Config.ofVariables (onlyWith .backlog "2305843009213693952") = .ok config ∧
      Pool.maxCapacity < config.backlog ∧
      (start {} {} (onlyWith .backlog "2305843009213693952")).outcome = .error .queueTooLong := by
  have hread : ((Config.ofVariables (onlyWith .backlog "2305843009213693952")).toOption.map
      fun config => (config.backlog, config.logFile)) = some (Pool.maxCapacity + 1, none) := by
    decide +kernel
  obtain ⟨config, hconfig, hsizes⟩ := exists_of_toOption_map hread
  obtain ⟨hbacklog, hlog⟩ : config.backlog = Pool.maxCapacity + 1 ∧ config.logFile = none := by
    simpa using hsizes
  have hover : Pool.maxCapacity < config.backlog := hbacklog ▸ Nat.lt_succ_self _
  refine ⟨config, hconfig, hover, ?_⟩
  rw [outcome_start hconfig (hosts_of_logFile hlog), if_pos hover]

end Startup

end Upkeep
