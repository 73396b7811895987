import ReportSql.Cli.Arguments

/-!
# Help texts

The help of the program and of its commands, laid out in two columns. A text stands on
one line however long it is.

## Main definitions

* `Cli.helpText` - the help on the program, on one command or on the request for help
* `Cli.versionText` - the name and version of the program
* `Cli.table` - a heading and rows of two columns
-/

namespace ReportSql.Cli

/-- The name of the program. -/
def programName : String := "quarry"

/-- The name and version of the program. -/
def versionText : String := programName ++ " 0.1.0\n"

/-- Blanks. -/
def blanks (n : Nat) : String :=
  String.ofList (List.replicate n ' ')

/-- A row of two columns, the second one starting at `column`. -/
def row (column : Nat) (label text : String) : String :=
  let start := "  " ++ label
  start ++ blanks (column - start.length) ++ text ++ "\n"

/-- Rows under a heading, the second column two blanks after the longest label. -/
def table (heading : String) (rows : List (String × String)) : String :=
  let column := (rows.map fun (label, _) => label.length).foldl max 0 + 4
  heading ++ ":\n" ++ String.join (rows.map fun (label, text) => row column label text)

namespace OptionName

/-- The name of the value of an option. -/
def valueName : OptionName → String
  | config => "CONFIG"
  | dialect => "DIALECT"
  | params => "PARAMS"
  | definition => "DEFINITION"
  | user => "USER"
  | unit => "UNIT"
  | page => "PAGE"
  | pageSize => "PAGE_SIZE"

/-- The forms of an option. -/
def label (o : OptionName) : String :=
  (match o.short? with
    | some letter => "-" ++ String.singleton letter ++ ", "
    | none => "    ") ++
  "--" ++ o.long ++ " <" ++ o.valueName ++ ">"

end OptionName

namespace CommandName

/-- What a command does. -/
def about : CommandName → String
  | validate => "Check a raw SQL report against the safety rules and whitelist"
  | compile => "Compile a declarative query config to SQL"
  | run => "Execute a report and print one page of results as JSON"
  | reports => "List the built-in reports"

/-- The arguments of a command, in short. -/
def usage : CommandName → String
  | validate | compile => "[OPTIONS] <FILE>"
  | run => "[OPTIONS] --user <USER> [REPORT]"
  | reports => "[OPTIONS]"

/-- The operands of a command. -/
def operandRows : CommandName → List (String × String)
  | validate => [("<FILE>", "Path to the .sql file")]
  | compile => [("<FILE>", "Path to the JSON query config")]
  | run => [("[REPORT]", "Built-in report name or custom id")]
  | reports => []

/-- What an option of a command is for. -/
def optionText : CommandName → OptionName → String
  | _, .config =>
    "Settings file (defaults to QUARRY_CONFIG, ./quarry.toml, then the user config dir)"
  | validate, .dialect =>
    "Dialect to lex with (defaults to the configured one) " ++ dialects
  | _, .dialect =>
    "SQL dialect to generate (defaults to the configured one) " ++ dialects
  | _, .params => "Parameter values as a JSON object [default: \x7b\x7d]"
  | _, .definition => "Run a report definition from a JSON file instead"
  | _, .user => "Id of the user the report runs for"
  | _, .unit => "Restrict to one organisational unit"
  | _, .page => "0-based page number [default: 0]"
  | _, .pageSize => "Rows per page (0 uses the configured default) [default: 0]"
where
  /-- The values that a dialect may have. -/
  dialects : String :=
    "[possible values: " ++ ", ".intercalate (Dialect.all.map Dialect.name) ++ "]"

end CommandName

/-- The row of the request for help. -/
def helpRow : String × String := ("-h, --help", "Print help")

/-- What the request for help does. -/
def helpAbout : String := "Print this message or the help of the given subcommand(s)"

/-- The help on the request for help. -/
def helpHelp : String :=
  helpAbout ++ "\n\nUsage: " ++ programName ++ " help [COMMAND]...\n\n" ++
    table "Arguments" [("[COMMAND]...", "Print help for the subcommand(s)")]

/-- The help on the program. -/
def programHelp : String :=
  "Quarry - safe, tenant-scoped reporting over a learning-platform database\n\nUsage: " ++
    programName ++ " [OPTIONS] <COMMAND>\n\n" ++
    table "Commands"
      (CommandName.all.map (fun command => (command.text, command.about)) ++
        [("help", helpAbout)]) ++ "\n" ++
    table "Options"
      [(OptionName.config.label, CommandName.optionText .reports .config), helpRow,
        ("-V, --version", "Print version")]

/-- The help on a command. -/
def commandHelp (command : CommandName) : String :=
  let operands := match command.operandRows with
    | [] => ""
    | rows => table "Arguments" rows ++ "\n"
  command.about ++ "\n\nUsage: " ++ programName ++ " " ++ command.text ++ " " ++ command.usage ++
    "\n\n" ++ operands ++
    table "Options"
      ((OptionName.config :: command.options).map
        (fun option => (option.label, command.optionText option)) ++ [helpRow])

/-- The help on a topic. -/
def helpText : HelpTopic → String
  | .program => programHelp
  | .command command => commandHelp command
  | .help => helpHelp

/-- What is said of arguments that cannot be accepted. -/
def usageText : String :=
  "error: invalid arguments\n\nFor more information, try '--help'.\n"

end ReportSql.Cli
