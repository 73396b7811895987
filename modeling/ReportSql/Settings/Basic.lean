import ReportSql.Scope.Injection
import ReportSql.Settings.Environment

/-!
# Settings

The configuration of the program: the database, the whitelist, tenancy, the
result cache, and the limits on execution. Every setting has a default.

## Main definitions

* `Settings` - all settings
* `Settings.validate` - whether they may be used
* `Settings.ofToml` - the settings written by a document
* `SettingsError` - why there are none
-/

namespace ReportSql

/-- Why settings cannot be had. -/
inductive SettingsError where
  | fileNotFound (path : String)
  /-- The file cannot be read, with the reason given by the system. -/
  | unreadable (reason : String)
  | malformed
  | missingVariable (name : String)
  | invalid (reason : String)
deriving DecidableEq, Repr

/-- The wording of an error. -/
def SettingsError.message : SettingsError → String
  | fileNotFound path => "Config file not found: " ++ path
  | unreadable reason => "Failed to read config file: " ++ reason
  | malformed => "Failed to parse config file: "
  | missingVariable name => "Missing environment variable: " ++ name
  | invalid reason => "Invalid configuration: " ++ reason

/-- The database that reports are run on. -/
structure DatabaseSettings where
  dialect : Dialect
  tablePrefix : String
  path : Option String
  queryTimeoutSecs : UInt64
deriving DecidableEq, Repr

/-- Where the whitelist is read from; the built-in schema stands in for it. -/
structure SchemaSettings where
  whitelistPath : Option String
deriving DecidableEq, Repr

/-- Where cached results are kept. -/
inductive CacheBackend where
  | memory
  | sqlite
deriving DecidableEq, Repr

/-- The name of a place for cached results. -/
def CacheBackend.name : CacheBackend → String
  | memory => "memory"
  | sqlite => "sqlite"

/-- The result cache. -/
structure CacheSettings where
  enabled : Bool
  backend : CacheBackend
  path : Option String
  defaultTtlSeconds : UInt64
deriving DecidableEq, Repr

/-- The sizes of pages and the number of reports that may run at once. -/
structure ExecutionSettings where
  defaultPageSize : UInt64
  maxPageSize : UInt64
  maxConcurrent : Option UInt64
deriving DecidableEq, Repr

/-- All settings. -/
structure Settings where
  database : DatabaseSettings
  schema : SchemaSettings
  tenant : TenantSettings
  cache : CacheSettings
  execution : ExecutionSettings
deriving DecidableEq, Repr

/-! ## Defaults -/

/-- Postgres without a table prefix. -/
def DatabaseSettings.default : DatabaseSettings :=
  ⟨.postgres, "", none, 30⟩

/-- The built-in schema. -/
def SchemaSettings.default : SchemaSettings :=
  ⟨none⟩

/-- Tenancy is enabled and nobody sees everything. -/
def TenantSettings.default : TenantSettings :=
  ⟨true, "u", "id", "membership", "user_id", "unit_id", []⟩

/-- Results are kept in memory for ten minutes. -/
def CacheSettings.default : CacheSettings :=
  ⟨true, .memory, none, 600⟩

/-- Pages of fifty rows, at most five thousand, and any number of reports at once. -/
def ExecutionSettings.default : ExecutionSettings :=
  ⟨50, 5000, none⟩

/-- The settings of an empty document. -/
def Settings.default : Settings :=
  ⟨.default, .default, .default, .default, .default⟩

/-! ## Validation -/

/-- The settings that must be plain identifiers, by name. -/
def TenantSettings.identifiers (t : TenantSettings) : List (String × String) :=
  [("user_alias", t.userAlias), ("user_column", t.userColumn),
    ("membership_table", t.membershipTable), ("membership_user_column", t.membershipUserColumn),
    ("membership_unit_column", t.membershipUnitColumn)]

/-- Refuses settings that would put anything but identifiers into generated SQL, and limits that
admit no page or no report. -/
def Settings.validate (s : Settings) : Except SettingsError Unit :=
  let tablePrefix := s.database.tablePrefix
  if !tablePrefix.isEmpty && !Dialect.isPlainIdentifier tablePrefix then
    .error (.invalid ("table_prefix '" ++ tablePrefix ++ "' is not a plain identifier"))
  else
    match s.tenant.identifiers.find? fun (_, value) => !Dialect.isPlainIdentifier value with
    | some (key, value) =>
      .error (.invalid ("tenant." ++ key ++ " '" ++ value ++ "' is not a plain identifier"))
    | none =>
      if s.execution.defaultPageSize = 0 || s.execution.maxPageSize < s.execution.defaultPageSize
      then
        .error (.invalid "page sizes must satisfy max_page_size >= default_page_size > 0")
      else if s.execution.maxConcurrent = some 0 then
        .error (.invalid "max_concurrent must be at least 1")
      else
        .ok ()

/-! ## Documents -/

/-- Reads the name of a dialect. -/
def Dialect.ofJson? (value : Json) : Option Dialect :=
  value.choice?.bind Dialect.ofName?

/-- Reads a place for cached results. -/
def CacheBackend.ofJson? (value : Json) : Option CacheBackend :=
  value.choice?.bind fun name => [CacheBackend.memory, .sqlite].find? (·.name == name)

/-- The members of the database settings. -/
def DatabaseSettings.members : List Json.Member :=
  [.omissible "dialect" .choice, .omissible "table_prefix", .omissible "path",
    .omissible "query_timeout_secs"]

/-- Reads the database settings. -/
def DatabaseSettings.ofJson? (value : Json) : Option DatabaseSettings := do
  let members ← value.record? DatabaseSettings.members
  let base := DatabaseSettings.default
  let dialect ← Json.defaulted? members "dialect" base.dialect Dialect.ofJson?
  let tablePrefix ← Json.defaulted? members "table_prefix" base.tablePrefix Json.string?
  let path ← Json.optional? members "path" Json.string?
  let timeout ← Json.defaulted? members "query_timeout_secs" base.queryTimeoutSecs Json.word?
  some ⟨dialect, tablePrefix, path, timeout⟩

/-- The members of the whitelist settings. -/
def SchemaSettings.members : List Json.Member :=
  [.omissible "whitelist_path"]

/-- Reads the whitelist settings. -/
def SchemaSettings.ofJson? (value : Json) : Option SchemaSettings := do
  let members ← value.record? SchemaSettings.members
  let path ← Json.optional? members "whitelist_path" Json.string?
  some ⟨path⟩

/-- The members of the tenancy settings. -/
def TenantSettings.members : List Json.Member :=
  [.omissible "enabled", .omissible "user_alias", .omissible "user_column",
    .omissible "membership_table", .omissible "membership_user_column",
    .omissible "membership_unit_column", .omissible "site_admins"]

/-- Reads the tenancy settings. -/
def TenantSettings.ofJson? (value : Json) : Option TenantSettings := do
  let members ← value.record? TenantSettings.members
  let base := TenantSettings.default
  let enabled ← Json.defaulted? members "enabled" base.enabled Json.bool?
  let userAlias ← Json.defaulted? members "user_alias" base.userAlias Json.string?
  let userColumn ← Json.defaulted? members "user_column" base.userColumn Json.string?
  let table ← Json.defaulted? members "membership_table" base.membershipTable Json.string?
  let user ←
    Json.defaulted? members "membership_user_column" base.membershipUserColumn Json.string?
  let unit ←
    Json.defaulted? members "membership_unit_column" base.membershipUnitColumn Json.string?
  let admins ← Json.defaulted? members "site_admins" base.siteAdmins (Json.listOf? Json.word?)
  some ⟨enabled, userAlias, userColumn, table, user, unit, admins⟩

/-- The members of the cache settings. -/
def CacheSettings.members : List Json.Member :=
  [.omissible "enabled", .omissible "backend" .choice, .omissible "path",
    .omissible "default_ttl_seconds"]

/-- Reads the cache settings. -/
def CacheSettings.ofJson? (value : Json) : Option CacheSettings := do
  let members ← value.record? CacheSettings.members
  let base := CacheSettings.default
  let enabled ← Json.defaulted? members "enabled" base.enabled Json.bool?
  let backend ← Json.defaulted? members "backend" base.backend CacheBackend.ofJson?
  let path ← Json.optional? members "path" Json.string?
  let ttl ← Json.defaulted? members "default_ttl_seconds" base.defaultTtlSeconds Json.word?
  some ⟨enabled, backend, path, ttl⟩

/-- The members of the limits on execution. -/
def ExecutionSettings.members : List Json.Member :=
  [.omissible "default_page_size", .omissible "max_page_size", .omissible "max_concurrent"]

/-- Reads the limits on execution. -/
def ExecutionSettings.ofJson? (value : Json) : Option ExecutionSettings := do
  let members ← value.record? ExecutionSettings.members
  let base := ExecutionSettings.default
  let pageSize ← Json.defaulted? members "default_page_size" base.defaultPageSize Json.word?
  let maxPageSize ← Json.defaulted? members "max_page_size" base.maxPageSize Json.word?
  let maxConcurrent ← Json.optional? members "max_concurrent" Json.word?
  some ⟨pageSize, maxPageSize, maxConcurrent⟩

/-- The members of all settings. -/
def Settings.members : List Json.Member :=
  [.omissible "database" (.record DatabaseSettings.members),
    .omissible "schema" (.record SchemaSettings.members),
    .omissible "tenant" (.record TenantSettings.members),
    .omissible "cache" (.record CacheSettings.members),
    .omissible "execution" (.record ExecutionSettings.members)]

/-- Reads all settings. -/
def Settings.ofJson? (value : Json) : Option Settings := do
  let members ← value.record? Settings.members
  let database ← Json.defaulted? members "database" .default DatabaseSettings.ofJson?
  let schema ← Json.defaulted? members "schema" .default SchemaSettings.ofJson?
  let tenant ← Json.defaulted? members "tenant" .default TenantSettings.ofJson?
  let cache ← Json.defaulted? members "cache" .default CacheSettings.ofJson?
  let execution ← Json.defaulted? members "execution" .default ExecutionSettings.ofJson?
  some ⟨database, schema, tenant, cache, execution⟩

/-- The settings written by a document, which must pass validation. -/
def Settings.ofToml (text : String) : Except SettingsError Settings :=
  match (Toml.parseAs? (.record Settings.members) text).bind Settings.ofJson? with
  | none => .error .malformed
  | some settings =>
    match settings.validate with
    | .error e => .error e
    | .ok () => .ok settings

/-- A 64-bit number in JSON. -/
def wordJson (n : UInt64) : Json :=
  .integer n.toNat

/-- A text in JSON, null when there is none. -/
def optionJson : Option String → Json
  | some text => .string text
  | none => .null

/-- All settings in JSON, with null for those that are not set. -/
def Settings.toJson (s : Settings) : Json :=
  .object
    [("database", .object
        [("dialect", .string s.database.dialect.name),
          ("table_prefix", .string s.database.tablePrefix),
          ("path", optionJson s.database.path),
          ("query_timeout_secs", wordJson s.database.queryTimeoutSecs)]),
      ("schema", .object [("whitelist_path", optionJson s.schema.whitelistPath)]),
      ("tenant", .object
        [("enabled", .bool s.tenant.enabled), ("user_alias", .string s.tenant.userAlias),
          ("user_column", .string s.tenant.userColumn),
          ("membership_table", .string s.tenant.membershipTable),
          ("membership_user_column", .string s.tenant.membershipUserColumn),
          ("membership_unit_column", .string s.tenant.membershipUnitColumn),
          ("site_admins", .array (s.tenant.siteAdmins.map wordJson))]),
      ("cache", .object
        [("enabled", .bool s.cache.enabled), ("backend", .string s.cache.backend.name),
          ("path", optionJson s.cache.path),
          ("default_ttl_seconds", wordJson s.cache.defaultTtlSeconds)]),
      ("execution", .object
        [("default_page_size", wordJson s.execution.defaultPageSize),
          ("max_page_size", wordJson s.execution.maxPageSize),
          ("max_concurrent",
            match s.execution.maxConcurrent with
            | some n => wordJson n
            | none => .null)])]

/-! ## Paths -/

/-- A configured path with its references to the environment replaced. -/
def expandPath (env : Environment) (path : String) : Except SettingsError String :=
  match env.expand path with
  | .ok expanded => .ok expanded
  | .error name => .error (.missingVariable name)

/-- The path of the database, if one is configured. -/
def DatabaseSettings.resolvedPath (d : DatabaseSettings) (env : Environment) :
    Except SettingsError (Option String) :=
  match d.path with
  | none => .ok none
  | some path => (expandPath env path).map some

end ReportSql
