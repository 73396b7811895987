import ReportSql.Dialect
import ReportSql.Report.Id

/-!
# Command line arguments

The commands of the program with their options and operands. Arguments are read
from left to right, and the first one that cannot be accepted ends the reading;
so does a request for help or for the version.

## Main definitions

* `Cli.Invocation` - what the arguments ask for
* `Cli.parse` - the invocation written by arguments
* `Cli.Stop` - why there is none
-/

namespace ReportSql.Cli

/-- The names of the commands. -/
inductive CommandName where
  | validate
  | compile
  | run
  | reports
deriving DecidableEq, Repr

/-- The options that take a value. -/
inductive OptionName where
  | config
  | dialect
  | params
  | definition
  | user
  | unit
  | page
  | pageSize
deriving DecidableEq, Repr

/-- What help is asked for. -/
inductive HelpTopic where
  | program
  | command (name : CommandName)
  /-- The request for help itself. -/
  | help
deriving DecidableEq, Repr

/-- Why there is no invocation. -/
inductive Stop where
  | usage
  | help (topic : HelpTopic)
  | version
deriving DecidableEq, Repr

namespace CommandName

/-- Every command, in order. -/
def all : List CommandName := [validate, compile, run, reports]

/-- The word for a command. -/
def text : CommandName → String
  | validate => "validate"
  | compile => "compile"
  | run => "run"
  | reports => "reports"

/-- The command of a word. -/
def ofText? (word : String) : Option CommandName :=
  all.find? (·.text == word)

/-- The options of a command, besides those that every command has. -/
def options : CommandName → List OptionName
  | validate => [.dialect]
  | compile => [.params, .dialect]
  | run => [.definition, .params, .user, .unit, .page, .pageSize]
  | reports => []

/-- How many operands a command takes. -/
def operands : CommandName → Nat
  | validate | compile | run => 1
  | reports => 0

/-- Whether a text will do as an operand: a file must have a name. -/
def acceptsOperand : CommandName → String → Bool
  | validate, file | compile, file => !file.isEmpty
  | run, _ => true
  | reports, _ => false

end CommandName

namespace OptionName

/-- The long form of an option, without its dashes. -/
def long : OptionName → String
  | config => "config"
  | dialect => "dialect"
  | params => "params"
  | definition => "definition"
  | user => "user"
  | unit => "unit"
  | page => "page"
  | pageSize => "page-size"

/-- The letter of an option. -/
def short? : OptionName → Option Char
  | config => some 'c'
  | dialect => some 'd'
  | params => some 'p'
  | user => some 'u'
  | _ => none

/-- Whether a text will do as the value of an option. -/
def accepts : OptionName → String → Bool
  | config, path | definition, path => !path.isEmpty
  | dialect, name => (Dialect.ofName? name).isSome
  | params, _ => true
  | user, number | unit, number | page, number | pageSize, number => (parseWord? number).isSome

end OptionName

/-! ## Reading -/

/-- What has been read so far. The options given before a command are kept apart. -/
structure Reading where
  command : Option CommandName
  outer : List (OptionName × String)
  given : List (OptionName × String)
  operands : List String
  /-- The option whose value comes next. -/
  pending : Option OptionName
  /-- Whether everything that follows is an operand. -/
  literal : Bool

namespace Reading

/-- Nothing read. -/
def start : Reading := ⟨none, [], [], [], none, false⟩

/-- What a request for help is about. -/
def topic (r : Reading) : HelpTopic :=
  r.command.elim .program .command

/-- The options that may be given. -/
def options (r : Reading) : List OptionName :=
  .config :: (r.command.elim [] CommandName.options)

/-- The value given for an option. An option given before the command counts where it is not
given again. -/
def value? (r : Reading) (option : OptionName) : Option String :=
  (r.given.lookup option).or (r.outer.lookup option)

/-- Gives a value to an option, which may have one only. -/
def give (r : Reading) (option : OptionName) (value : String) : Except Stop Reading :=
  if (r.given.lookup option).isSome || !option.accepts value then .error .usage
  else .ok { r with given := (option, value) :: r.given, pending := none }

/-- Gives a value to an option, or waits for it. -/
def meet (r : Reading) (option : OptionName) : Option String → Except Stop Reading
  | some value => r.give option value
  | none => .ok { r with pending := some option }

/-- Takes an operand. -/
def operand (r : Reading) (text : String) : Except Stop Reading :=
  match r.command with
  | none => .error .usage
  | some command =>
    if r.operands.length < command.operands && command.acceptsOperand text then
      .ok { r with operands := r.operands ++ [text] }
    else .error .usage

/-- Takes an option in its long form, without the dashes; a value may follow an equals sign. -/
def longOption (r : Reading) (cs : List Char) : Except Stop Reading :=
  let name := String.ofList (cs.takeWhile (· ≠ '='))
  let value := match cs.dropWhile (· ≠ '=') with
    | _ :: rest => some (String.ofList rest)
    | [] => none
  match r.options.find? (·.long == name) with
  | some option => r.meet option value
  | none =>
    if value.isSome then .error .usage
    else if name = "help" then .error (.help r.topic)
    else if name = "version" && r.command.isNone then .error .version
    else .error .usage

/-- Takes an option by its letter; a value may follow, also after an equals sign. -/
def shortOption (r : Reading) (letter : Char) (cs : List Char) : Except Stop Reading :=
  let value := match cs with
    | [] => none
    | '=' :: rest => some (String.ofList rest)
    | rest => some (String.ofList rest)
  match r.options.find? (·.short? == some letter) with
  | some option => r.meet option value
  | none =>
    if letter = 'h' then .error (.help r.topic)
    else if letter = 'V' && r.command.isNone then .error .version
    else .error .usage

/-- Takes an argument that stands on its own. -/
def free (r : Reading) (arg : String) : Except Stop Reading :=
  match r.command, CommandName.ofText? arg with
  | none, some command =>
    .ok { r with command := some command, outer := r.given, given := [] }
  | _, _ =>
    match arg.toList with
    | ['-', '-'] => .ok { r with literal := true }
    | '-' :: '-' :: cs => r.longOption cs
    | '-' :: letter :: cs => r.shortOption letter cs
    | _ => r.operand arg

/-- Whether an argument looks like an option. -/
def looksLikeOption (arg : String) : Bool :=
  match arg.toList with
  | '-' :: _ :: _ => true
  | _ => false

/-- Takes the next argument. -/
def take (r : Reading) (arg : String) : Except Stop Reading :=
  match r.pending with
  | some option => if looksLikeOption arg then .error .usage else r.give option arg
  | none => if r.literal then r.operand arg else r.free arg

/-- What the arguments after a request for help ask for. -/
def helpOn : List String → Stop
  | [] => .help .program
  | ["help"] => .help .help
  | [word] => (CommandName.ofText? word).elim .usage fun command => .help (.command command)
  | _ => .usage

/-- Takes all arguments. -/
def takeAll (r : Reading) : List String → Except Stop Reading
  | [] => if r.pending.isSome then .error .usage else .ok r
  | arg :: rest =>
    if r.command.isNone && r.pending.isNone && !r.literal && arg == "help" then
      .error (helpOn rest)
    else
      match r.take arg with
      | .error stop => .error stop
      | .ok r => r.takeAll rest

end Reading

/-! ## Invocations -/

/-- Where the report of a run comes from. -/
inductive ReportSource where
  | name (text : String)
  | file (path : String)
  | missing
deriving DecidableEq, Repr

/-- A command with its arguments. -/
inductive Command where
  | validate (file : String) (dialect : Option Dialect)
  | compile (file : String) (params : String) (dialect : Option Dialect)
  | run (source : ReportSource) (params : String) (user : UInt64) (unit : Option UInt64)
      (page pageSize : UInt64)
  | reports
deriving DecidableEq, Repr

/-- What the arguments ask for: a command, under the settings of a file that may be named. -/
structure Invocation where
  config : Option String
  command : Command
deriving DecidableEq, Repr

namespace Reading

/-- The number given for an option. -/
def number? (r : Reading) (option : OptionName) : Option UInt64 :=
  (r.value? option).bind parseWord?

/-- The dialect that is given. -/
def dialect? (r : Reading) : Option Dialect :=
  (r.value? .dialect).bind Dialect.ofName?

/-- The parameters that are given, or none. -/
def params (r : Reading) : String :=
  (r.value? .params).getD "\x7b\x7d"

/-- The report to run. A name and a file exclude each other. -/
def source (r : Reading) : Except Stop ReportSource :=
  match r.operands.head?, r.value? .definition with
  | some _, some _ => .error .usage
  | some text, none => .ok (.name text)
  | none, some path => .ok (.file path)
  | none, none => .ok .missing

/-- The command, if everything that it needs is given. -/
def finish (r : Reading) : Except Stop Command :=
  match r.command, r.operands with
  | some .validate, [file] => .ok (.validate file r.dialect?)
  | some .compile, [file] => .ok (.compile file r.params r.dialect?)
  | some .run, _ =>
    match r.source, r.number? .user with
    | .ok source, some user =>
      .ok (.run source r.params user (r.number? .unit) ((r.number? .page).getD 0)
        ((r.number? .pageSize).getD 0))
    | _, _ => .error .usage
  | some .reports, _ => .ok .reports
  | _, _ => .error .usage

end Reading

/-- The invocation written by arguments. -/
def parse (args : List String) : Except Stop Invocation := do
  let reading ← Reading.start.takeAll args
  let command ← reading.finish
  .ok ⟨reading.value? .config, command⟩

end ReportSql.Cli
