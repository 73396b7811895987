import ReportSql.Cache.Sqlite
import ReportSql.Execution.Run
import ReportSql.Settings.Basic

/-!
# The host of the program

What the program asks of the system that it runs on: variables, files, databases
and the time. Everything that depends on the system goes through a `Host`, so a
whole run of the program can also be computed from a description of one.

## Main definitions

* `Host` - the operations of a system
* `Host.expand` - a configured path with its references replaced
* `FileError` - why a file cannot be read
-/

namespace ReportSql

/-- Why a file cannot be read. -/
inductive FileError where
  | notFound
  | notADirectory
  | isADirectory
  | alreadyExists
  | nameTooLong
  | nulInName
  | notText
  | other (message : String)
deriving DecidableEq, Repr

namespace FileError

/-- The wording of an error. -/
def message : FileError → String
  | notFound => "No such file or directory (os error 2)"
  | notADirectory => "Not a directory (os error 20)"
  | isADirectory => "Is a directory (os error 21)"
  | alreadyExists => "File exists (os error 17)"
  | nameTooLong => "File name too long (os error 36)"
  | nulInName => "file name contained an unexpected NUL byte"
  | notText => "stream did not contain valid UTF-8"
  | other message => message

/-- Whether nothing can be found at the path. -/
def isAbsence : FileError → Bool
  | notFound | notADirectory | nameTooLong | nulInName => true
  | _ => false

/-- What is wrong with a path on every system: a NUL in it. -/
def ofPath? (path : String) : Option FileError :=
  if path.contains '\x00' then some nulInName else none

end FileError

/-- The operations of a system. -/
structure Host (m : Type → Type) where
  /-- The value of a variable of the environment. -/
  getVariable : String → m (Option String)
  readFile : String → m (Except FileError String)
  openDatabase : String → m (Except BackendError (Database m))
  /-- Opens a database of cached results, making the directories that lead to it. -/
  openCache : String → m (Except Cache.CacheError Cache.SqliteStore)
  /-- The time in milliseconds. -/
  clock : m UInt64

namespace Host

variable {m : Type → Type} [Monad m]

/-- Whether there is something at a path. -/
def isPresent (host : Host m) (path : String) : m Bool := do
  match ← host.readFile path with
  | .ok _ => return true
  | .error cause => return !cause.isAbsence

/-- The variables among some names that are set. -/
def environment (host : Host m) : List String → m Environment
  | [] => return []
  | name :: rest => do
    let env ← host.environment rest
    match ← host.getVariable name with
    | some value => return (name, value) :: env
    | none => return env

/-- A configured path with its references to the environment replaced. -/
def expand (host : Host m) (path : String) : m (Except SettingsError String) := do
  return expandPath (← host.environment (Environment.references path)) path

/-- A place in the home directory. -/
def inHome? (host : Host m) (place : String) : m (Option String) := do
  match ← host.getVariable "HOME" with
  | some home => return if home.isEmpty then none else some (home ++ "/" ++ place)
  | none => return none

/-- A directory of the user: an absolute path in a variable, or else a place in the home
directory. -/
def userDirectory? (host : Host m) (name place : String) : m (Option String) := do
  match ← host.getVariable name with
  | some path => if path.startsWith "/" then return some path else host.inHome? place
  | none => host.inHome? place

/-- Where the user keeps configuration files. -/
def configDirectory? (host : Host m) : m (Option String) :=
  host.userDirectory? "XDG_CONFIG_HOME" ".config"

/-- Where the user keeps cached files. -/
def cacheDirectory? (host : Host m) : m (Option String) :=
  host.userDirectory? "XDG_CACHE_HOME" ".cache"

end Host

end ReportSql
