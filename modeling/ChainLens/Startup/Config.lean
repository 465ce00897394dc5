import Mathlib.Data.Nat.Notation
import Mathlib.Tactic.Common

/-!
# The configuration

Both programs read their settings once, check them and print them. The URLs hold credentials, so
their texts keep only what identifies the target.

## Main definitions

* `Startup.Url`, `Startup.RedactedUrl`: a parsed URL, and its redacted texts
* `Startup.Config`, `Config.validate`: the settings and their checks
* `Config.renderings`: the texts of a configuration

## Main results

* `Config.validate_ok_iff`, `Config.validate_defaults`: which configurations are accepted
* `Config.renderings_congr`: of a URL, the texts show its target and whether something is left out
-/

namespace ChainLens

namespace Startup

/-- A parsed URL. -/
structure Url where
  scheme : String
  username : String
  password : Option String
  host : Option String
  port : Option ℕ
  path : String
  query : Option String
  fragment : Option String
deriving DecidableEq

namespace Url

/-- The user info before the host, with its separator. -/
def userInfo (url : Url) : String :=
  if url.username = "" ∧ url.password = none then ""
  else url.username ++ (url.password.elim "" (":" ++ ·)) ++ "@"

/-- The text of a URL that has a host. -/
def asStr (url : Url) : String :=
  url.scheme ++ "://" ++ url.userInfo ++ url.host.getD "" ++
    url.port.elim "" (fun port => ":" ++ toString port) ++ url.path ++
    url.query.elim "" ("?" ++ ·) ++ url.fragment.elim "" ("#" ++ ·)

end Url

structure RedactedUrl where
  expose : Url
deriving DecidableEq

namespace RedactedUrl

def scheme (url : RedactedUrl) : String := url.expose.scheme

def hasHost (url : RedactedUrl) : Bool := url.expose.host.any (· ≠ "")

/-- Whether the text of the URL leaves something out. -/
def elided (url : RedactedUrl) : Bool :=
  1 < url.expose.path.utf8ByteSize || url.expose.query.isSome || url.expose.username ≠ "" ||
    url.expose.password.isSome

/-- The text of the URL, which is its debug text as well. -/
def display (url : RedactedUrl) : String :=
  let host := url.expose.host.getD ""
  url.expose.scheme ++ "://" ++ (if host = "" then "<no-host>" else host) ++
    url.expose.port.elim "" (fun port => ":" ++ toString port) ++
    if url.elided then "/..." else ""

end RedactedUrl

inductive LogFormat where
  | text
  | json
deriving DecidableEq

def LogFormat.debug : LogFormat → String
  | .text => "Text"
  | .json => "Json"

/-- The settings, each with its default where it has one. -/
structure Config where
  rpcUrl : RedactedUrl
  databaseUrl : RedactedUrl
  dbMaxConnections : ℕ := 5
  dbConnectTimeoutSecs : ℕ := 5
  logFormat : LogFormat := .text
  rpcRateLimit : ℕ := 10
  rpcTimeoutSecs : ℕ := 30
  rpcMaxRetries : ℕ := 3
  backfillFrom : ℕ := 0
  headPollSecs : ℕ := 4
  maxReorgDepth : ℕ := 128
  workerCount : ℕ := 4
  fetchQueueDepth : ℕ := 32

inductive ConfigError where
  | missingHost (setting : String)
  | scheme (setting actual expected : String)
  | range (setting : String) (actual min max : ℕ)
deriving DecidableEq

def ConfigError.display : ConfigError → String
  | .missingHost setting => setting ++ " must be a URL with a host"
  | .scheme setting actual expected =>
    setting ++ " has scheme \"" ++ actual ++ "\" but must be one of: " ++ expected
  | .range setting actual min max =>
    setting ++ " is " ++ toString actual ++ " but must be between " ++ toString min ++ " and " ++
      toString max

def requireHost (setting : String) (url : RedactedUrl) : Except ConfigError Unit :=
  if url.hasHost then .ok () else .error (.missingHost setting)

def requireScheme (setting : String) (url : RedactedUrl) (allowed : List String) :
    Except ConfigError Unit :=
  if url.scheme ∈ allowed then .ok ()
  else .error (.scheme setting url.scheme (", ".intercalate allowed))

def requireRange (setting : String) (actual : ℕ) : ℕ × ℕ → Except ConfigError Unit
  | (min, max) =>
    if min ≤ actual ∧ actual ≤ max then .ok () else .error (.range setting actual min max)

namespace Config

def maxConnections : ℕ × ℕ := (1, 200)

def connectTimeoutSecs : ℕ × ℕ := (1, 120)

def rateLimit : ℕ × ℕ := (1, 1000)

def timeoutSecs : ℕ × ℕ := (1, 120)

def maxRetries : ℕ × ℕ := (0, 10)

def validate (config : Config) : Except ConfigError Unit := do
  requireHost "CHAINLENS_RPC_URL" config.rpcUrl
  requireHost "DATABASE_URL" config.databaseUrl
  requireScheme "CHAINLENS_RPC_URL" config.rpcUrl ["http", "https"]
  requireScheme "DATABASE_URL" config.databaseUrl ["postgres", "postgresql"]
  requireRange "CHAINLENS_DB_MAX_CONNECTIONS" config.dbMaxConnections maxConnections
  requireRange "CHAINLENS_DB_CONNECT_TIMEOUT_SECS" config.dbConnectTimeoutSecs connectTimeoutSecs
  requireRange "CHAINLENS_RPC_RATE_LIMIT" config.rpcRateLimit rateLimit
  requireRange "CHAINLENS_RPC_TIMEOUT_SECS" config.rpcTimeoutSecs timeoutSecs
  requireRange "CHAINLENS_RPC_MAX_RETRIES" config.rpcMaxRetries maxRetries

/-- The derived debug text: the name, and every field with its value. -/
def debug (config : Config) : String :=
  let fields : List (String × String) :=
    [("rpc_url", config.rpcUrl.display), ("database_url", config.databaseUrl.display),
      ("db_max_connections", toString config.dbMaxConnections),
      ("db_connect_timeout_secs", toString config.dbConnectTimeoutSecs),
      ("log_format", config.logFormat.debug), ("rpc_rate_limit", toString config.rpcRateLimit),
      ("rpc_timeout_secs", toString config.rpcTimeoutSecs),
      ("rpc_max_retries", toString config.rpcMaxRetries),
      ("backfill_from", toString config.backfillFrom),
      ("head_poll_secs", toString config.headPollSecs),
      ("max_reorg_depth", toString config.maxReorgDepth),
      ("worker_count", toString config.workerCount),
      ("fetch_queue_depth", toString config.fetchQueueDepth)]
  "Config \x7b " ++ ", ".intercalate (fields.map fun (name, value) => name ++ ": " ++ value) ++
    " \x7d"

/-- Every text the program makes of its configuration: the debug text of the whole, the texts of
both URLs, and the error of a configuration that is rejected. -/
def renderings (config : Config) : List String :=
  [config.debug, config.rpcUrl.display, config.databaseUrl.display] ++
    match config.validate with
    | .ok () => []
    | .error e => [e.display]

/-! ## What is accepted -/

section Checks

variable {setting : String} {url : RedactedUrl} {actual : ℕ}

theorem requireHost_ok_iff : requireHost setting url = .ok () ↔ url.hasHost := by
  simp [requireHost]

theorem requireScheme_ok_iff {allowed : List String} :
    requireScheme setting url allowed = .ok () ↔ url.scheme ∈ allowed := by
  simp [requireScheme]

theorem requireRange_ok_iff {bounds : ℕ × ℕ} :
    requireRange setting actual bounds = .ok () ↔ bounds.1 ≤ actual ∧ actual ≤ bounds.2 := by
  simp [requireRange]

end Checks

/-- One check after the other. -/
theorem andThen_ok_iff {check rest : Except ConfigError Unit} :
    (check >>= fun _ => rest) = .ok () ↔ check = .ok () ∧ rest = .ok () := by
  cases check with
  | error e => simp [Bind.bind, Except.bind]
  | ok _ => simp [Bind.bind, Except.bind]

/-- **Which configurations are accepted.** -/
theorem validate_ok_iff (config : Config) :
    config.validate = .ok () ↔
      (config.rpcUrl.hasHost ∧ config.databaseUrl.hasHost) ∧
      (config.rpcUrl.scheme ∈ ["http", "https"] ∧
        config.databaseUrl.scheme ∈ ["postgres", "postgresql"]) ∧
      (1 ≤ config.dbMaxConnections ∧ config.dbMaxConnections ≤ 200) ∧
      (1 ≤ config.dbConnectTimeoutSecs ∧ config.dbConnectTimeoutSecs ≤ 120) ∧
      (1 ≤ config.rpcRateLimit ∧ config.rpcRateLimit ≤ 1000) ∧
      (1 ≤ config.rpcTimeoutSecs ∧ config.rpcTimeoutSecs ≤ 120) ∧
      0 ≤ config.rpcMaxRetries ∧ config.rpcMaxRetries ≤ 10 := by
  simp only [validate, andThen_ok_iff, requireHost_ok_iff, requireScheme_ok_iff,
    requireRange_ok_iff, and_assoc]
  rfl

/-- The defaults pass their checks. -/
theorem validate_defaults {rpcUrl databaseUrl : RedactedUrl} (hrpc : rpcUrl.hasHost)
    (hdatabase : databaseUrl.hasHost) (hrpcScheme : rpcUrl.scheme ∈ ["http", "https"])
    (hdatabaseScheme : databaseUrl.scheme ∈ ["postgres", "postgresql"]) :
    validate { rpcUrl, databaseUrl } = .ok () := by
  rw [validate_ok_iff]
  exact ⟨⟨hrpc, hdatabase⟩, ⟨hrpcScheme, hdatabaseScheme⟩, by simp⟩

/-- The settings of the pipeline are not checked. -/
theorem validate_pipeline (config : Config) (workerCount fetchQueueDepth : ℕ) :
    validate { config with workerCount, fetchQueueDepth } = config.validate := rfl

end Config

/-! ## What the texts show -/

/-- Two URLs of one target: they differ in user info, path, query or fragment only. -/
def Url.SameTarget (url url' : Url) : Prop :=
  url.scheme = url'.scheme ∧ url.host = url'.host ∧ url.port = url'.port

section Renderings

variable {url url' : RedactedUrl}

theorem display_congr (htarget : url.expose.SameTarget url'.expose)
    (helided : url.elided = url'.elided) : url.display = url'.display := by
  obtain ⟨hscheme, hhost, hport⟩ := htarget
  simp [RedactedUrl.display, hscheme, hhost, hport, helided]

theorem Config.validate_congr (config : Config) (htarget : url.expose.SameTarget url'.expose) :
    validate { config with rpcUrl := url } = validate { config with rpcUrl := url' } := by
  obtain ⟨hscheme, hhost, -⟩ := htarget
  simp [validate, requireHost, requireScheme, RedactedUrl.hasHost, RedactedUrl.scheme, hscheme,
    hhost]

/-- **The texts of a configuration** are those of every other one whose node URL names the same
target, as long as both URLs have something to leave out. -/
theorem Config.renderings_congr (config : Config)
    (htarget : url.expose.SameTarget url'.expose) (helided : url.elided = url'.elided) :
    renderings { config with rpcUrl := url } = renderings { config with rpcUrl := url' } := by
  have hdisplay := display_congr htarget helided
  have hvalidate := config.validate_congr htarget
  simp [renderings, debug, hdisplay, hvalidate]

end Renderings

end Startup

end ChainLens
