import ReportSql.Statement.Tables
import ReportSql.Whitelist

/-!
# Validation of author statements

An author statement is accepted when it is one SELECT without blocked keywords
that names only whitelisted tables. The rules are checked in a fixed order and
the first one that fails gives the answer; nothing is repaired.

## Main definitions

* `ValidationError` - why a statement is rejected
* `Validator` - the whitelist, dialect and table prefix to check against
* `Validator.validate` - the statement of an accepted text
-/

namespace ReportSql

/-- Why a statement is rejected. -/
inductive ValidationError where
  | notASelect
  | multipleStatements
  | blockedKeyword (word : String)
  | disallowedTable (table : String)
  | malformed (message : String)
deriving DecidableEq, Repr

namespace ValidationError

/-- The code of the rule that failed. -/
def reason : ValidationError → String
  | notASelect => "not-a-select"
  | multipleStatements => "multiple-statements"
  | blockedKeyword _ => "blocked-keyword"
  | disallowedTable _ => "disallowed-table"
  | malformed _ => "malformed"

/-- The code with what it was about. -/
def message (e : ValidationError) : String :=
  match e with
  | notASelect | multipleStatements => e.reason
  | blockedKeyword word => e.reason ++ ":" ++ word
  | disallowedTable table => e.reason ++ ":" ++ table
  | malformed message => e.reason ++ ":" ++ message

/-- An explanation for the author. -/
def detail : ValidationError → String
  | notASelect => "only a single SELECT statement is allowed"
  | multipleStatements => "content found after a terminating semicolon"
  | blockedKeyword word => "keyword " ++ word ++ " is not allowed"
  | disallowedTable table => "table '" ++ table ++ "' is not in the schema whitelist"
  | malformed message => message

end ValidationError

/-- What statements are checked against. -/
structure Validator where
  whitelist : Whitelist
  dialect : Dialect
  tablePrefix : String

namespace Validator

/-- Words that must not appear unquoted anywhere. -/
def blockedKeywords : List String :=
  ["INSERT", "UPDATE", "DELETE", "DROP", "ALTER", "TRUNCATE", "GRANT", "REVOKE", "CREATE",
    "EXEC", "EXECUTE", "CALL", "MERGE", "REPLACE"]

/-- The upper-case text of a token that is a blocked keyword. -/
def blockedKeyword? (token : Token) : Option String :=
  match token.unquotedWord? with
  | some word => if blockedKeywords.contains word then some word else none
  | none => none

/-- Whether a semicolon is followed by anything but blanks. -/
def hasSecondStatement (tokens : List Token) : Bool :=
  match tokens.dropWhile (· ≠ .punctuation .semicolon) with
  | [] => false
  | _ :: rest => rest.any (!·.isBlank)

/-- The rules on the tokens alone. -/
def checkTokens (tokens : List Token) : Except ValidationError Unit :=
  if !(Token.firstSignificant? tokens).any (·.isKeyword "SELECT") then .error .notASelect
  else if hasSecondStatement tokens then .error .multipleStatements
  else
    match tokens.findSome? blockedKeyword? with
    | some word => .error (.blockedKeyword word)
    | none => .ok ()

/-- The name of a table in the whitelist: a name outside braces carries the table prefix, in any
ASCII case. -/
def listedName? (v : Validator) (m : TableMention) : Option String :=
  if m.braced || v.tablePrefix.isEmpty then some m.name
  else
    let name := (Text.lowerAscii m.name).toList
    let tablePrefix := (Text.lowerAscii v.tablePrefix).toList
    if tablePrefix.isPrefixOf name then some (String.ofList (name.drop tablePrefix.length))
    else none

/-- Whether a table may be named. -/
def allows (v : Validator) (m : TableMention) : Bool :=
  (v.listedName? m).any v.whitelist.allowsTable

/-- The rule on the tables. A position without a plain name fails before any name does. -/
def checkTables (v : Validator) (s : Statement) : Except ValidationError Unit :=
  let scan := s.scanTables
  match scan.unreadable with
  | text :: _ => .error (.disallowedTable text)
  | [] =>
    match scan.mentions.find? (!v.allows ·) with
    | some m => .error (.disallowedTable (Text.lowerAscii m.name))
    | none => .ok ()

/-- A text that is no statement, as a reason for rejection. -/
def ofStatementError : StatementError → ValidationError
  | .empty => .notASelect
  | e => .malformed e.message

/-- The statement of an accepted text, or the first rule that failed. -/
def validate (v : Validator) (sql : String) : Except ValidationError Statement :=
  match Token.tokenize v.dialect sql with
  | .error e => .error (.malformed e.message)
  | .ok tokens =>
    match checkTokens tokens with
    | .error e => .error e
    | .ok () =>
      match Statement.parse sql v.dialect with
      | .error e => .error (ofStatementError e)
      | .ok s =>
        match v.checkTables s with
        | .error e => .error e
        | .ok () => .ok s

end Validator

end ReportSql
