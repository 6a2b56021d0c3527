/-
# Loading the configuration

`pkg/config/config.go` from the decoded document on: derived defaults, the
password from the environment, and the two phases of validation. The YAML
decoder writes the document over `defaults`; it is a parameter of `load`, as is
the environment.

Overflow policy, error policy and concurrency mode decode to enumerations, so
their checks cannot fail and are left out. The three port numbers are checked in
the order of a Go map, which is not fixed; it decides only which of several bad
ports an error names.

Key definitions: `Config`, `Config.applyDerivedDefaults`, `Config.validate`, `load`.
Key theorems: `load_eq_ok`, `validate_capture`.
-/
import PgShadow.Capture.Open

namespace PgShadow

/-- `replayer.Config`, as far as it is read here. -/
structure ReplayerSection where
  targetHost : Bytes := []
  targetPort : ℤ := 5432
  targetDatabase : Bytes := []
  targetUser : Bytes := []
  passwordEnv : Bytes := bytes "PGSHADOW_DB_PASSWORD"
  workers : ℤ := 32
  maxConcurrency : ℤ := 256
  targetDialect : Bytes := bytes "postgresql"
  poolMaxConns : ℤ := 100
  poolMinConns : ℤ := 20
deriving DecidableEq

/-- The aggregate configuration; the field defaults are those of `defaults`. -/
structure Config where
  capture : CaptureConfig := { mode := bytes "pcap", port := 5432, bufferSize := 64 * 2 ^ 20, bidirectional := true }
  maxSQLLength : ℤ := 2 ^ 20
  timeoutIdle : ℤ := 300
  filterMode : Bytes := bytes "write_only"
  queueCapacity : ℤ := 500000
  replayer : ReplayerSection := {}
  metricsPort : ℤ := 9090
  targetPassword : Bytes := []
deriving DecidableEq

inductive ConfigError
  | reading
  | parsing
  | passwordNotSet (name : Bytes)
  | missing (param : Bytes)
  | notOneOf (param value : Bytes) (want : List Bytes)
  | tooSmall (param : Bytes) (value min : ℤ)
  | minExceedsMax (minConns maxConns : ℤ)
  | notAPort (param : Bytes) (value : ℤ)
deriving DecidableEq

def Config.applyDerivedDefaults (c : Config) : Config :=
  let c :=
    if c.capture.bpfFilter = [] then
      let port := if c.capture.port = 0 then defaultPort else c.capture.port
      { c with capture := { c.capture with port, bpfFilter := portFilter port } }
    else c
  if c.replayer.passwordEnv = [] then
    { c with replayer := { c.replayer with passwordEnv := bytes "PGSHADOW_DB_PASSWORD" } }
  else c

def Config.resolvePassword (lookupEnv : Bytes → Option Bytes) (c : Config) : Except ConfigError Config :=
  match lookupEnv c.replayer.passwordEnv with
  | none => .error (.passwordNotSet c.replayer.passwordEnv)
  | some value => .ok { c with targetPassword := value }

/-- A required text. -/
def require (param value : Bytes) : Except ConfigError Unit :=
  if trimSpace value = [] then .error (.missing param) else .ok ()

/-- A text of a fixed list. -/
def requireOneOf (param value : Bytes) (want : List Bytes) : Except ConfigError Unit :=
  if want.contains value then .ok () else .error (.notOneOf param value want)

/-- A lower bound. -/
def requireMin (param : Bytes) (value min : ℤ) : Except ConfigError Unit :=
  if value < min then .error (.tooSmall param value min) else .ok ()

/-- The two bounds of the connection pool. -/
def requireMinMax (minConns maxConns : ℤ) : Except ConfigError Unit :=
  if maxConns < minConns then .error (.minExceedsMax minConns maxConns) else .ok ()

def requirePort (param : Bytes) (port : ℤ) : Except ConfigError Unit :=
  if port < 1 ∨ 65535 < port then .error (.notAPort param port) else .ok ()

def Config.validateStructural (c : Config) : Except ConfigError Unit := do
  require (bytes "capture.interface") c.capture.interface
  require (bytes "replayer.target_host") c.replayer.targetHost
  require (bytes "replayer.target_database") c.replayer.targetDatabase
  require (bytes "replayer.target_user") c.replayer.targetUser

def validFilterModes : List Bytes := List.map bytes ["write_only", "all", "ddl_only", "dml_only", "custom"]

def Config.validateSemantic (c : Config) : Except ConfigError Unit := do
  requireOneOf (bytes "replayer.target_dialect") c.replayer.targetDialect
    (List.map bytes ["postgresql", "greenplum"])
  requireMin (bytes "replayer.pool_max_conns") c.replayer.poolMaxConns 1
  requireMin (bytes "replayer.pool_min_conns") c.replayer.poolMinConns 0
  requireMinMax c.replayer.poolMinConns c.replayer.poolMaxConns
  requireMin (bytes "replayer.workers") c.replayer.workers 1
  requireMin (bytes "queue.capacity") c.queueCapacity 1
  requireOneOf (bytes "filter.mode") c.filterMode validFilterModes
  requireMin (bytes "parser.max_sql_length") c.maxSQLLength 1
  requireMin (bytes "parser.timeout_idle") c.timeoutIdle 0
  requirePort (bytes "capture.port") c.capture.port
  requirePort (bytes "replayer.target_port") c.replayer.targetPort
  requirePort (bytes "metrics.port") c.metricsPort
  requireMin (bytes "replayer.max_concurrency") c.replayer.maxConcurrency 1

def Config.validate (c : Config) : Except ConfigError Unit := do
  c.validateStructural
  c.validateSemantic

/-- `Load`: `readFile` is the content of the configuration file, `decode` the
YAML decoder, which writes a document over the defaults. -/
def load (readFile : Option Bytes) (decode : Bytes → Config → Option Config) (lookupEnv : Bytes → Option Bytes) :
    Except ConfigError Config := do
  let data ← readFile.elim (throw .reading) pure
  let cfg ← (decode data {}).elim (throw .parsing) pure
  let cfg ← cfg.applyDerivedDefaults.resolvePassword lookupEnv
  cfg.validate
  return cfg

theorem bind_eq_ok {α β : Type} {x : Except ConfigError α} {f : α → Except ConfigError β} {b : β}
    (h : (x >>= f) = .ok b) : ∃ a, x = .ok a ∧ f a = .ok b := by
  rcases x with e | a
  · cases h
  · exact ⟨a, rfl, h⟩

/-- What an accepted configuration is. -/
theorem load_eq_ok {readFile : Option Bytes} {decode : Bytes → Config → Option Config}
    {lookupEnv : Bytes → Option Bytes} {cfg : Config} (h : load readFile decode lookupEnv = .ok cfg) :
    ∃ data raw password, readFile = some data ∧ decode data {} = some raw ∧
      cfg = { raw.applyDerivedDefaults with targetPassword := password } ∧ cfg.validate = .ok () := by
  obtain ⟨data, hdata, h⟩ := bind_eq_ok h
  obtain ⟨raw, hraw, h⟩ := bind_eq_ok h
  obtain ⟨cfg', hpass, h⟩ := bind_eq_ok h
  obtain ⟨⟨⟩, hvalid, h⟩ := bind_eq_ok h
  obtain rfl : cfg' = cfg := Except.ok.inj h
  have hread : readFile = some data := by
    rcases readFile with _ | d
    · cases hdata
    · exact congrArg some (Except.ok.inj hdata)
  have hdecode : decode data {} = some raw := by
    rcases hd : decode data {} with _ | r
    · rw [hd] at hraw
      cases hraw
    · rw [hd] at hraw
      exact congrArg some (Except.ok.inj hraw)
  unfold Config.resolvePassword at hpass
  split at hpass
  · cases hpass
  · rename_i password _
    exact ⟨data, raw, password, hread, hdecode, (Except.ok.inj hpass).symm, hvalid⟩

theorem require_eq_ok {param value : Bytes} (h : require param value = .ok ()) : trimSpace value ≠ [] := by
  intro hempty
  rw [require, if_pos hempty] at h
  cases h

theorem requirePort_eq_ok {param : Bytes} {port : ℤ} (h : requirePort param port = .ok ()) :
    1 ≤ port ∧ port ≤ 65535 := by
  by_contra hbad
  rw [requirePort, if_pos (by omega)] at h
  cases h

/-- A valid configuration has a capture interface and a capture port. -/
theorem validate_capture {c : Config} (h : c.validate = .ok ()) :
    trimSpace c.capture.interface ≠ [] ∧ 1 ≤ c.capture.port ∧ c.capture.port ≤ 65535 := by
  obtain ⟨⟨⟩, hstructural, hsemantic⟩ := bind_eq_ok h
  obtain ⟨⟨⟩, hinterface, -⟩ := bind_eq_ok hstructural
  refine ⟨require_eq_ok hinterface, ?_⟩
  unfold Config.validateSemantic at hsemantic
  -- nine checks before the capture port
  iterate 9 obtain ⟨⟨⟩, -, hsemantic⟩ := bind_eq_ok hsemantic
  obtain ⟨⟨⟩, hport, -⟩ := bind_eq_ok hsemantic
  exact requirePort_eq_ok hport

end PgShadow
