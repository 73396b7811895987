import ReportSql.Cli.Help
import ReportSql.Execution.Setup

/-!
# The program

The commands of the program: checking an author statement, compiling a declarative
report, running a report, and listing the built-in reports.

## Main definitions

* `Cli.Outcome` - what the program writes and how it ends
* `Cli.execute` - the outcome for some arguments
-/

namespace ReportSql.Cli

/-- What the program writes and how it ends. -/
structure Outcome where
  exitCode : Nat
  stdout : String
  stderr : String
deriving DecidableEq, Repr

namespace Outcome

/-- A success that writes some text. -/
def success (stdout : String) : Outcome := ⟨0, stdout, ""⟩

/-- A failure with a message. -/
def failure (message : String) : Outcome := ⟨1, "", message ++ "\n"⟩

/-- A rejection, reported to the author of a report. -/
def rejection (e : ReportError) : Outcome := ⟨1, e.report.toJson.indented ++ "\n", ""⟩

end Outcome

variable {m : Type → Type} [Monad m]

/-- A computation that may end with a message. -/
abbrev Action (m : Type → Type) := ExceptT String m

/-- An answer whose failure ends with a message. -/
def asking {ε α : Type} (message : ε → String) (answer : m (Except ε α)) : Action m α :=
  ExceptT.mk do return (← answer).mapError message

/-- The text of a file. -/
def readFile (host : Host m) (file : String) : Action m String :=
  asking (fun e => "Error reading file '" ++ file ++ "': " ++ FileError.message e)
    (host.readFile file)

/-- The whitelist of the settings. -/
def loadWhitelist (host : Host m) (s : Settings) : Action m Whitelist :=
  asking (fun e => "Whitelist error: " ++ WhitelistError.message e)
    (Whitelist.ofSettings host s.schema)

/-- The settings of a named file or of the usual places. -/
def loadSettings (host : Host m) (config : Option String) : Action m Settings :=
  asking (fun e => "Configuration error: " ++ SettingsError.message e)
    (match config with
      | some path => Settings.fromFile host path
      | none => Settings.load host)

/-- A value that a text writes, or a message that it cannot be read. -/
def decode {α : Type} (parse? : String → Option α) (message text : String) : Action m α :=
  match parse? text with
  | some value => return value
  | none => throw message

/-- The parameters of a request. -/
def readParams (text : String) : Action m Params :=
  decode Params.parse? "Invalid --params JSON: " text

/-- Checks an author statement. -/
def validate (host : Host m) (s : Settings) (file : String) (dialect : Option Dialect) :
    Action m Outcome := do
  let sql ← readFile host file
  let whitelist ← loadWhitelist host s
  let dialect := dialect.getD s.database.dialect
  match Validator.validate ⟨whitelist, dialect, s.database.tablePrefix⟩ sql with
  | .error e => return .rejection (.validation e)
  | .ok statement =>
    let names := (NameSet.ofNames statement.placeholders).names
    return .success ("OK: " ++ file ++ " is a valid report query\n" ++
      (if names.isEmpty then "" else "Parameters: " ++ ", ".intercalate names ++ "\n"))

/-- The bound parameters as comments after a query. -/
def paramLines (params : Params) : String :=
  if params.entries.isEmpty then ""
  else
    "\n" ++ String.join (params.entries.map fun (name, value) =>
      "-- " ++ name ++ " = " ++ value.canonical ++ "\n")

/-- Compiles a declarative report. -/
def compile (host : Host m) (s : Settings) (file params : String) (dialect : Option Dialect) :
    Action m Outcome := do
  let text ← readFile host file
  let config ← decode QueryConfig.parse? ("Invalid query config '" ++ file ++ "': ") text
  let params ← readParams params
  let whitelist ← loadWhitelist host s
  let dialect := dialect.getD s.database.dialect
  match Compiler.compile ⟨whitelist, dialect, s.database.tablePrefix⟩ config params with
  | .error e => return .rejection (.compile e)
  | .ok compiled =>
    return ⟨0, compiled.sql ++ "\n" ++ paramLines compiled.params,
      String.join (compiled.warnings.map fun warning => "warning: " ++ warning ++ "\n")⟩

/-- A page as the program prints it, with the time that it took. -/
def pageText (page : ResultPage) (durationMs : UInt64) : String :=
  (Json.object (page.members ++
    [("duration_ms", .real (Binary64.ofNat durationMs.toNat))])).indented ++ "\n"

/-- Runs a report that has been found. -/
def runReport (host : Host m) (setup : Setup m) (request : ReportRequest) : m Outcome := do
  let began ← host.clock
  let (_, outcome) ← setup.executor.run setup.database host.clock request
  let ended ← host.clock
  match outcome with
  | .ok page => return .success (pageText page (Cache.saturatingSub ended began))
  | .error e => return .rejection e

/-- The report of a source: an error is one for the author. -/
def findReport (host : Host m) (setup : Setup m) :
    ReportSource → Action m (Except ReportError ReportDefinition)
  | .missing => throw "Specify a report name or --definition <file>"
  | .name text =>
    match ReportId.parse text with
    | .error e => return .error (.unknownReport e)
    | .ok id => return setup.executor.find id
  | .file path => do
    let text ← readFile host path
    let definition ← decode ReportDefinition.parse?
      ("Invalid report definition '" ++ path ++ "': ") text
    return .ok definition

/-- Runs a report. -/
def run (host : Host m) (s : Settings) (source : ReportSource) (params : String)
    (caller : Caller) (page pageSize : UInt64) : Action m Outcome := do
  let params ← readParams params
  let setup ←
    asking (fun e => "Setup error: " ++ SetupError.message e) (Setup.ofSettings host s).run
  match ← findReport host setup source with
  | .error e => return .rejection e
  | .ok definition =>
    let request : ReportRequest := ⟨definition, params, caller, page, pageSize⟩
    (runReport host setup request : m Outcome)

/-- Lists the built-in reports. -/
def reportList : String :=
  "Reports:\n" ++ String.join (ReportKind.all.map fun kind =>
    "  - " ++ kind.name ++ " (" ++ kind.label ++ ")\n")

/-- The outcome of a command. -/
def perform (host : Host m) (s : Settings) : Command → Action m Outcome
  | .validate file dialect => validate host s file dialect
  | .compile file params dialect => compile host s file params dialect
  | .run source params user unit page pageSize =>
    run host s source params ⟨user, unit⟩ page pageSize
  | .reports => return .success reportList

/-- The outcome of an invocation. Its settings must be in order whatever the command is. -/
def invoke (host : Host m) (i : Invocation) : m Outcome := do
  let outcome ← (do perform host (← loadSettings host i.config) i.command : Action m Outcome).run
  match outcome with
  | .ok outcome => return outcome
  | .error message => return .failure message

/-- The outcome for some arguments. -/
def execute (host : Host m) (args : List String) : m Outcome :=
  match parse args with
  | .error .usage => return ⟨2, "", usageText⟩
  | .error .version => return .success versionText
  | .error (.help topic) => return .success (helpText topic)
  | .ok invocation => invoke host invocation

end ReportSql.Cli
