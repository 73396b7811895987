import ReportSql.Cache.Local
import ReportSql.Settings.Load

/-!
# Setting up an executor

An executor over the SQLite database that the settings name, with the whitelist
and the cache that they ask for.

## Main definitions

* `Setup` - an executor and its database
* `Setup.ofSettings` - the executor that some settings describe
* `SetupError` - why there is none
-/

namespace ReportSql

/-- Why an executor cannot be set up. -/
inductive SetupError where
  | settings (cause : SettingsError)
  | schema (cause : SchemaError)
  | backend (cause : BackendError)
  | cache (cause : Cache.CacheError)
  | missingDatabase
  | dialectMismatch (dialect : Dialect)
deriving DecidableEq, Repr

/-- The wording of an error. -/
def SetupError.message : SetupError → String
  | settings cause => cause.message
  | schema cause => cause.message
  | backend cause => "failed to open database: " ++ cause.message
  | cache cause => "failed to open result cache: " ++ cause.message
  | missingDatabase => "no database path configured (set database.path)"
  | dialectMismatch dialect =>
    "database.dialect is '" ++ dialect.name ++
      "' but the backend is SQLite (set dialect = \"sqlite\")"

/-- A whitelist that cannot be had, as a reason for there being no executor. -/
def SetupError.ofWhitelist : WhitelistError → SetupError
  | .settings cause => settings cause
  | .schema cause => schema cause

/-- An executor and its database. -/
structure Setup (m : Type → Type) where
  executor : Executor Cache.LocalStore
  database : Database m

namespace Setup

variable {m : Type → Type} [Monad m]

/-- An answer of the host, whose failure is a failure to set up. -/
def asking {ε α : Type} (cause : ε → SetupError) (answer : m (Except ε α)) :
    ExceptT SetupError m α :=
  ExceptT.mk do return (← answer).mapError cause

/-- The database that the settings name. -/
def openDatabase (host : Host m) (s : DatabaseSettings) :
    ExceptT SetupError m (Database m) := do
  match s.path with
  | none => throw .missingDatabase
  | some configured =>
    let path ← asking .settings (host.expand configured)
    asking .backend (host.openDatabase path)

/-- The cache that the settings ask for. -/
def openCache (host : Host m) (s : CacheSettings) :
    ExceptT SetupError m (Option Cache.LocalStore) := do
  if !s.enabled then
    return none
  else
    match s.backend with
    | .memory => return some (.new .memory)
    | .sqlite =>
      let path ← asking .settings (s.resolvedPath host)
      return some (.sqlite (← asking .cache (host.openCache path)))

/-- The executor that some settings describe. Reports are rendered in the dialect of the settings,
so that has to be the dialect of the database. -/
def ofSettings (host : Host m) (s : Settings) : ExceptT SetupError m (Setup m) := do
  if s.database.dialect ≠ .sqlite then
    throw (.dialectMismatch s.database.dialect)
  else
    let whitelist ← asking SetupError.ofWhitelist (Whitelist.ofSettings host s.schema)
    let database ← openDatabase host s.database
    let cache ← openCache host s.cache
    return ⟨.new s whitelist cache, database⟩

end Setup

end ReportSql
