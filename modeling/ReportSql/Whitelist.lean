import ReportSql.Dialect
import ReportSql.NameMap
import ReportSql.Toml.Document

/-!
# The schema whitelist

The closed set of tables and columns that reports may use. Names are plain
identifiers, stored in lower case and looked up without regard to ASCII case.

## Main definitions

* `Whitelist` - the allowed tables with their columns
* `Whitelist.insertTable` - the whitelist with one table set
* `Whitelist.allowsTable`, `Whitelist.allowsColumn` - the two questions asked of it
* `Whitelist.ofToml` - the whitelist written by a document
* `Whitelist.builtin` - the schema of a learning platform
-/

namespace ReportSql

/-- A set of names. -/
abbrev NameSet := NameMap Unit

/-- The set of the names in a list. -/
def NameSet.ofNames (names : List String) : NameSet :=
  NameMap.ofList (names.map fun name => (name, ()))

/-- An allowed table: an optional label and its columns in lower case. -/
structure TableEntry where
  label : Option String
  columns : NameSet

/-- The ways in which a whitelist cannot be had. -/
inductive SchemaError where
  /-- The file cannot be read, with the reason given by the system. -/
  | unreadable (reason : String)
  | malformed
  | invalidIdentifier (name : String)
  | emptyTable (table : String)
deriving DecidableEq, Repr

/-- The wording of an error. -/
def SchemaError.message : SchemaError → String
  | unreadable reason => "Failed to read whitelist file: " ++ reason
  | malformed => "Failed to parse whitelist: "
  | invalidIdentifier name => "Invalid identifier in whitelist: '" ++ name ++ "'"
  | emptyTable table => "Table '" ++ table ++ "' has no columns"

/-- The allowed tables by their lower-case names. -/
structure Whitelist where
  tables : NameMap TableEntry

namespace Whitelist

/-- The whitelist that allows nothing. -/
def empty : Whitelist := ⟨NameMap.empty⟩

/-- A plain identifier in the form in which it is stored. -/
def normalize (name : String) : Except SchemaError String :=
  if Dialect.isPlainIdentifier name then .ok (Text.lowerAscii name)
  else .error (.invalidIdentifier name)

/-- Adds a table, or replaces the one of that name. -/
def insertTable (w : Whitelist) (name : String) (label : Option String)
    (columns : List String) : Except SchemaError Whitelist :=
  match normalize name with
  | .error e => .error e
  | .ok table =>
    match columns.mapM normalize with
    | .error e => .error e
    | .ok [] => .error (.emptyTable table)
    | .ok columns => .ok ⟨w.tables.insert table ⟨label, NameSet.ofNames columns⟩⟩

/-- The entry of a table. -/
def table? (w : Whitelist) (name : String) : Option TableEntry :=
  w.tables.get? (Text.lowerAscii name)

/-- Whether a table may be used. -/
def allowsTable (w : Whitelist) (name : String) : Bool :=
  (w.table? name).isSome

/-- Whether a column of a table may be used. -/
def allowsColumn (w : Whitelist) (table column : String) : Bool :=
  match w.table? table with
  | some entry => entry.columns.contains (Text.lowerAscii column)
  | none => false

/-- The names of the allowed tables in increasing order. -/
def tableNames (w : Whitelist) : List String :=
  w.tables.names

/-- How many tables are allowed. -/
def size (w : Whitelist) : Nat :=
  w.tables.size

/-! ## Documents -/

/-- The section of a table in a document. -/
structure Section where
  name : String
  label : Option String
  columns : List String

/-- Adds the tables of several sections in turn. -/
def insertSections (w : Whitelist) : List Section → Except SchemaError Whitelist
  | [] => .ok w
  | s :: rest =>
    match w.insertTable s.name s.label s.columns with
    | .error e => .error e
    | .ok w => w.insertSections rest

/-- The whitelist of several sections. -/
def ofSections (sections : List Section) : Except SchemaError Whitelist :=
  empty.insertSections sections

/-- The members of a section. -/
def Section.members : List Json.Member :=
  [.required "label", .required "columns"]

/-- The members of a document: its sections by name. -/
def members : List Json.Member :=
  [.omissible "tables" (.map (.record Section.members))]

/-- The section written by a value. -/
def readSection? (name : String) (value : Json) : Option Section := do
  let members ← value.record? Section.members
  let label ← Json.optional? members "label" Json.string?
  let columns ← Json.required? members "columns" (Json.listOf? Json.string?)
  some ⟨name, label, columns⟩

/-- The sections of a document in increasing order of their names. -/
def readSections? (document : Json) : Option (List Section) := do
  let members ← document.record? members
  match members.lookup "tables" with
  | none => some []
  | some (.object sections) =>
    (NameMap.ofList sections).entries.mapM fun (name, value) => readSection? name value
  | some _ => none

/-- The whitelist written by a document. -/
def ofToml (text : String) : Except SchemaError Whitelist :=
  match (Toml.parseAs? (.record members) text).bind readSections? with
  | none => .error .malformed
  | some sections => ofSections sections

/-! ## The built-in schema -/

/-- The tables of a learning platform; the prefix of the host is added when SQL is printed. -/
def builtinSections : List Section :=
  [⟨"user", some "Users",
      ["id", "username", "firstname", "lastname", "email", "suspended", "deleted", "auth", "city",
        "country", "lang", "timecreated", "timemodified", "firstaccess", "lastaccess",
        "lastlogin"]⟩,
    ⟨"course", some "Courses",
      ["id", "category", "fullname", "shortname", "idnumber", "visible", "startdate", "enddate",
        "timecreated", "timemodified"]⟩,
    ⟨"course_category", some "Course categories",
      ["id", "name", "idnumber", "parent", "visible", "depth", "path"]⟩,
    ⟨"enrolment", some "Enrolments",
      ["id", "user_id", "course_id", "status", "timestart", "timeend", "timecreated"]⟩,
    ⟨"completion", some "Course completions",
      ["id", "user_id", "course_id", "timeenrolled", "timestarted", "timecompleted"]⟩,
    ⟨"grade", some "Final grades", ["id", "user_id", "course_id", "finalgrade", "timemodified"]⟩,
    ⟨"log", some "Activity log",
      ["id", "user_id", "course_id", "eventname", "component", "action", "timecreated"]⟩,
    ⟨"unit", some "Organisational units", ["id", "name", "shortname", "parent_id", "timecreated"]⟩,
    ⟨"membership", some "Unit memberships",
      ["id", "user_id", "unit_id", "role", "timecreated"]⟩]

/-- The built-in schema. -/
def builtin : Whitelist :=
  (ofSections builtinSections).toOption.getD empty

end Whitelist

end ReportSql
