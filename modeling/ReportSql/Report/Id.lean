import ReportSql.Json.Record
import ReportSql.Text.Blank
import ReportSql.Text.Case
import ReportSql.Text.Digit

/-!
# Report identities

A report is one of the built-in kinds or a custom report with a number.

## Main definitions

* `ReportKind` - the built-in kinds
* `ReportId` - the identity of a report
* `ReportId.parse` - the identity written by a text
-/

namespace ReportSql

/-- The built-in reports, in their order. -/
inductive ReportKind where
  | courseEnrolments
  | inactiveUsers
  | courseCompletions
  | unitMembers
deriving DecidableEq, Repr

namespace ReportKind

/-- Every kind, in order. -/
def all : List ReportKind :=
  [courseEnrolments, inactiveUsers, courseCompletions, unitMembers]

/-- The name of a kind. -/
def name : ReportKind → String
  | courseEnrolments => "course_enrolments"
  | inactiveUsers => "inactive_users"
  | courseCompletions => "course_completions"
  | unitMembers => "unit_members"

/-- What a kind is about. -/
def label : ReportKind → String
  | courseEnrolments => "Enrolments per course"
  | inactiveUsers => "Users inactive since a cutoff"
  | courseCompletions => "Completions per course"
  | unitMembers => "Members of each organisational unit"

end ReportKind

/-- The identity of a report. -/
inductive ReportId where
  | builtin (kind : ReportKind)
  | custom (number : UInt64)
deriving DecidableEq, Repr

/-- A text or an identity without a report. -/
structure UnknownReport where
  name : String
deriving DecidableEq, Repr

/-- The wording of the error. -/
def UnknownReport.message (e : UnknownReport) : String :=
  "unknown report: " ++ e.name

/-- Recognises the name of a kind without regard to outer blanks and ASCII case. -/
def ReportKind.parse (s : String) : Except UnknownReport ReportKind :=
  match ReportKind.all.find? fun kind => Text.sameIgnoringCase kind.name (Text.trim s) with
  | some kind => .ok kind
  | none => .error ⟨s⟩

/-- An unsigned 64-bit number in decimal digits, possibly after a plus sign. -/
def parseWord? (s : String) : Option UInt64 :=
  let digits := match s.toList with
    | '+' :: rest => rest
    | cs => cs
  let value := Text.valueOf 10 digits
  if !digits.isEmpty && digits.all Char.isDigit && value < Nat.pow 2 64 then
    some (UInt64.ofNat value)
  else none

namespace ReportId

/-- The text of an identity. -/
def text : ReportId → String
  | builtin kind => kind.name
  | custom number => toString number.toNat

/-- Recognises a number or the name of a kind. -/
def parse (s : String) : Except UnknownReport ReportId :=
  match parseWord? (Text.trim s) with
  | some number => .ok (custom number)
  | none => (ReportKind.parse s).map builtin

/-- Whether the identity is that of a built-in report. -/
def isBuiltin : ReportId → Bool
  | builtin _ => true
  | custom _ => false

/-- Where an identity stands among all: built-in reports first, then numbers. -/
def rank : ReportId → Nat
  | builtin .courseEnrolments => 0
  | builtin .inactiveUsers => 1
  | builtin .courseCompletions => 2
  | builtin .unitMembers => 3
  | custom number => 4 + number.toNat

/-- Reads an identity: a number or exactly the name of a kind. -/
def ofJson? (value : Json) : Option ReportId :=
  match value.choice? with
  | some name => (ReportKind.all.find? (·.name == name)).map builtin
  | none => value.word?.map custom

/-- Writes an identity. -/
def toJson : ReportId → Json
  | builtin kind => .string kind.name
  | custom number => .integer number.toNat

end ReportId

end ReportSql
