/-
# Configuration

The settings of the service, read from variables of its environment. Only the secret must be
given; everything else has a default. Numbers may have blanks around them and a plus sign in
front. The settings are read in a fixed order, and the first one that cannot be used is
reported.
-/

import Upkeep.Bindings
import Upkeep.Decimal.Layout
import Upkeep.Decimal.Reader
import Upkeep.LogLevel
import Upkeep.Pool.Settings
import Upkeep.RateLimit.Limiter
import Upkeep.Signature
import Upkeep.Text.Quoted

namespace Upkeep

/-- A setting, named by its variable. -/
inductive Setting where
  | port
  | secret
  | logLevel
  | logFile
  | workers
  | backlog
  | rate
  | burst
  | trustProxy
deriving DecidableEq, Repr

/-- The variable that gives a setting. -/
def Setting.variable : Setting → String
  | .port => "CLOUD_UPDATE_PORT"
  | .secret => "CLOUD_UPDATE_SECRET"
  | .logLevel => "CLOUD_UPDATE_LOG_LEVEL"
  | .logFile => "CLOUD_UPDATE_LOG_FILE"
  | .workers => "CLOUD_UPDATE_WORKERS"
  | .backlog => "CLOUD_UPDATE_MAX_BACKLOG"
  | .rate => "CLOUD_UPDATE_RATE_LIMIT_RPS"
  | .burst => "CLOUD_UPDATE_RATE_LIMIT_BURST"
  | .trustProxy => "CLOUD_UPDATE_TRUST_PROXY_HEADERS"

/-- Why the value of a setting cannot be used. -/
inductive Objection where
  | noNumber
  | notPositive
  | noPort
  | noPositiveInteger
  | noLogLevel
  | noTruthValue
deriving DecidableEq, Repr

/-- The words for an objection. -/
def Objection.words : Objection → String
  | .noNumber => "must be a number"
  | .notPositive => "must be a positive number"
  | .noPort => "must be a valid port number"
  | .noPositiveInteger => "must be a positive integer"
  | .noLogLevel => "expected one of debug, info, warn, error"
  | .noTruthValue => "expected true or false"

/-- Why a configuration cannot be used. -/
inductive ConfigError where
  | missingSecret
  | secretTooShort (length : Nat)
  | invalid (setting : Setting) (value : String) (objection : Objection)
deriving DecidableEq, Repr

/-- The message about a configuration. -/
def ConfigError.message : ConfigError → String
  | .missingSecret => "missing required environment variable " ++ Setting.secret.variable
  | .secretTooShort length =>
    "webhook secret must be at least " ++ toString minSecretLength ++ " bytes, got " ++
      toString length
  | .invalid setting value objection =>
    "invalid value " ++ Text.quoted value ++ " for " ++ setting.variable ++ ": " ++
      objection.words

/-- The settings of the service. -/
structure Config where
  port : UInt16
  secret : String
  logLevel : LogLevel
  /-- A file to which the log is written as well. -/
  logFile : Option String
  workers : Nat
  backlog : Nat
  /-- Requests admitted from one client in a second. -/
  rate : Float
  /-- Requests admitted from one client at once. -/
  burst : Nat
  /-- Whether headers are believed about where a request comes from. -/
  trustProxy : Bool

namespace Config

/-- The port on which the service listens, unless told otherwise. -/
def defaultPort : Nat := 9999

/-- Checks the length of a secret, in bytes of its text. -/
def validateSecret (secret : String) : Except ConfigError Unit :=
  if secret.utf8ByteSize < minSecretLength then .error (.secretTooShort secret.utf8ByteSize)
  else .ok ()

/-- The value of a setting as `read` understands it without the blanks around it, or a default
where it is not given. -/
def valueOr {α : Type} (environment : Bindings) (setting : Setting) (default : α)
    (objection : Objection) (read : String → Option α) : Except ConfigError α :=
  match environment.find? setting.variable with
  | none => .ok default
  | some value =>
    match read (Text.trim value) with
    | some result => .ok result
    | none => .error (.invalid setting value objection)

/-- The truth value that a text names, in any letter case. -/
def truthValue? (text : String) : Option Bool :=
  let word := text.toLower
  if word ∈ ["1", "true", "yes", "on"] then some true
  else if word ∈ ["0", "false", "no", "off"] then some false
  else none

/-- The log level that a text names. -/
def readLogLevel (text : String) : Except ConfigError LogLevel :=
  match LogLevel.ofText? text with
  | some level => .ok level
  | none => .error (.invalid .logLevel text .noLogLevel)

/-- A rate must be positive and finite. -/
def checkRate (rate : Float) : Except ConfigError Unit :=
  if rate.isFinite && 0.0 < rate then .ok ()
  else .error (.invalid .rate (Decimal.Layout.plain.text rate) .notPositive)

/-- Reads the settings from variables. -/
def ofVariables (environment : Bindings) : Except ConfigError Config := do
  let secret ←
    match (environment.find? Setting.secret.variable).filter fun secret => !secret.isEmpty with
    | none => throw .missingSecret
    | some secret => pure secret
  validateSecret secret
  let logLevel ←
    match environment.find? Setting.logLevel.variable with
    | none => pure LogLevel.info
    | some text => readLogLevel text
  let rate ←
    valueOr environment .rate (Float.ofNat RateLimit.defaultRate) .noNumber Decimal.float?
  checkRate rate
  let port ← valueOr environment .port defaultPort .noPort (Decimal.natBelow? UInt16.size)
  let logFile := (environment.find? Setting.logFile.variable).filter fun path => !path.isEmpty
  let workers ←
    valueOr environment .workers Pool.defaultWorkers .noPositiveInteger
      (Decimal.natBelow? UInt64.size)
  let backlog ←
    valueOr environment .backlog Pool.defaultBacklog .noPositiveInteger
      (Decimal.natBelow? UInt64.size)
  let burst ←
    valueOr environment .burst RateLimit.defaultBurst .noPositiveInteger
      (Decimal.natBelow? UInt32.size)
  let trustProxy ← valueOr environment .trustProxy true .noTruthValue truthValue?
  return {
    port := UInt16.ofNat port
    secret, logLevel, logFile
    workers := max workers 1
    backlog := max backlog 1
    rate
    burst := max burst 1
    trustProxy }

/-- What stands for the secret where settings are shown. -/
def hiddenSecret : String := "<redacted>"

/-- How settings are shown: by name, without the secret. -/
def shown (config : Config) : String :=
  let logFile :=
    match config.logFile with
    | none => "None"
    | some path => "Some(" ++ Text.quoted path ++ ")"
  let fields := [
    ("port", toString config.port.toNat),
    ("secret", Text.quoted hiddenSecret),
    ("log_level", config.logLevel.shown),
    ("log_file", logFile),
    ("workers", toString config.workers),
    ("max_backlog", toString config.backlog),
    ("rate_limit_rps", Decimal.Layout.detailed.text config.rate),
    ("rate_limit_burst", toString config.burst),
    ("trust_proxy_headers", toString config.trustProxy)]
  "Config \x7b " ++
    String.intercalate ", " (fields.map fun field => field.1 ++ ": " ++ field.2) ++ " \x7d"

end Config

end Upkeep
