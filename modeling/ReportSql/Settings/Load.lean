import ReportSql.Host

/-!
# Loading settings

Settings and whitelists are read from files. Where no settings file is named, the
usual places are tried in order, and without any file all settings have their
defaults.

## Main definitions

* `Settings.fromFile` - the settings in a file
* `Settings.load` - the settings of the first file among the usual places
* `Whitelist.ofSettings` - the whitelist that the settings name
-/

namespace ReportSql

variable {m : Type → Type} [Monad m]

/-- The variable that names a settings file. -/
def Settings.fileVariable : String := "QUARRY_CONFIG"

/-- The settings file in the working directory. -/
def Settings.localFile : String := "quarry.toml"

/-- The settings file of a user, below the directory for configuration. -/
def Settings.userFile : String := "quarry/config.toml"

/-- The database of cached results of a user, below the directory for cached files. -/
def CacheSettings.userFile : String := "quarry/results.db"

/-- The settings in a file. -/
def Settings.fromFile (host : Host m) (path : String) : m (Except SettingsError Settings) := do
  match ← host.readFile path with
  | .ok text => return Settings.ofToml text
  | .error cause =>
    return .error (if cause.isAbsence then .fileNotFound path else .unreadable cause.message)

/-- The settings of the first file among the usual places: the one that a variable names, the one in
the working directory, and the one of the user. -/
def Settings.load (host : Host m) : m (Except SettingsError Settings) := do
  match ← host.getVariable Settings.fileVariable with
  | some path => Settings.fromFile host path
  | none =>
    if ← host.isPresent Settings.localFile then
      Settings.fromFile host Settings.localFile
    else
      match ← host.configDirectory? with
      | none => return .ok .default
      | some directory =>
        let path := directory ++ "/" ++ Settings.userFile
        if ← host.isPresent path then Settings.fromFile host path else return .ok .default

/-- The place of the database of cached results. -/
def CacheSettings.resolvedPath (host : Host m) (c : CacheSettings) :
    m (Except SettingsError String) := do
  match c.path with
  | some path => host.expand path
  | none =>
    match ← host.cacheDirectory? with
    | some directory => return .ok (directory ++ "/" ++ CacheSettings.userFile)
    | none => return .error (.invalid "no cache directory available")

/-- Why a whitelist cannot be had. -/
inductive WhitelistError where
  | settings (cause : SettingsError)
  | schema (cause : SchemaError)
deriving DecidableEq, Repr

/-- The wording of an error. -/
def WhitelistError.message : WhitelistError → String
  | settings cause => cause.message
  | schema cause => cause.message

/-- The whitelist in a file. -/
def Whitelist.fromFile (host : Host m) (path : String) : m (Except SchemaError Whitelist) := do
  match ← host.readFile path with
  | .ok text => return Whitelist.ofToml text
  | .error cause => return .error (.unreadable cause.message)

/-- The whitelist that the settings name. -/
def Whitelist.ofSettings (host : Host m) (s : SchemaSettings) :
    m (Except WhitelistError Whitelist) := do
  match s.whitelistPath with
  | none => return .ok .builtin
  | some path =>
    match ← host.expand path with
    | .error cause => return .error (.settings cause)
    | .ok path => return (← Whitelist.fromFile host path).mapError .schema

end ReportSql
