import ReportSql.Cli.Program
import ReportSql.Sqlite.Constant
import ReportSql.Sqlite.Location

/-!
# Command line

The program on the system that it is started on. No database engine is linked to
it, so the databases that it opens hold no tables.

## Main definitions

* `Host.system` - the system as a host
* `main` - the program
-/

namespace ReportSql

/-- The error of a file as the program tells it. -/
def FileError.ofSystem : IO.Error → FileError
  | .noFileOrDirectory _ _ _ => .notFound
  | .inappropriateType _ code _ => if code = 20 then .notADirectory else .isADirectory
  | .resourceVanished _ _ => .notFound
  | .alreadyExists _ _ _ => .alreadyExists
  | .invalidArgument _ 36 _ => .nameTooLong
  | .userError _ => .notText
  | e => .other (toString e)

/-- The result of an action on the file at a path. -/
def attempt {α : Type} (path : String) (action : IO α) : IO (Except FileError α) := do
  match FileError.ofPath? path with
  | some cause => return .error cause
  | none =>
    try
      return .ok (← action)
    catch e =>
      return .error (FileError.ofSystem e)

/-- Makes the directories on the way to a path. -/
def makeDirectories (path : String) : IO (Except FileError Unit) :=
  match ((path.splitOn "/").reverse.dropWhile fun name => name = "" || name = ".").drop 1 with
  | [] | [""] => return .ok ()
  | outer =>
    let directory := "/".intercalate outer.reverse
    attempt directory (IO.FS.createDirAll directory)

/-- How the file of a database is opened. -/
def Sqlite.Mode.fileMode : Sqlite.Mode → IO.FS.Mode
  | .read => .read
  | .write => .readWrite
  | .create | .memory => .append

/-- Opens the file of a database, if it has one. -/
def openFile (name : String) : IO (Except String Sqlite.Location) := do
  match Sqlite.Location.ofName name with
  | .error message => return .error message
  | .ok location =>
    if location.isPrivate then return .ok location
    else
      match ← attempt location.path
          (discard (IO.FS.Handle.mk location.path location.mode.fileMode)) with
      | .ok () => return .ok location
      | .error _ => return .error (Sqlite.Location.cannotOpen name)

/-- The system as a host. -/
def Host.system : Host IO where
  getVariable name := IO.getEnv name
  readFile path := attempt path (IO.FS.readFile path)
  openDatabase name := do
    match ← openFile name with
    | .ok _ => return .ok ⟨fun sql params => return Sqlite.answer sql params⟩
    | .error message => return .error (.sqlite message)
  openCache path := do
    match ← makeDirectories path with
    | .error cause => return .error (.io cause.message)
    | .ok () =>
      match ← openFile path with
      | .ok location =>
        if location.isReadOnly then return .error (.sqlite Sqlite.Location.notWritable)
        else return .ok .empty
      | .error message => return .error (.sqlite message)
  clock := return UInt64.ofNat (← IO.monoMsNow)

end ReportSql

/-- The program. -/
def main (args : List String) : IO UInt32 := do
  let outcome ← ReportSql.Cli.execute ReportSql.Host.system args
  (← IO.getStdout).putStr outcome.stdout
  (← IO.getStderr).putStr outcome.stderr
  return UInt32.ofNat outcome.exitCode
