import ReportSql.Text.Case

/-!
# SQL dialects

The four dialects in which statements are read and written, with the rules that
differ between them: how identifiers and strings are quoted, how truth values and
placeholders are written, and whether paging needs an order.

## Main definitions

* `Dialect` - the dialects, with `Dialect.name` and `Dialect.parse`
* `Dialect.formatIdentifier` - an identifier, quoted only where it has to be
* `Dialect.quoteString` - a string literal
* `Dialect.formatPlaceholder` - a named placeholder
-/

namespace ReportSql

/-- A dialect of SQL. -/
inductive Dialect where
  | postgres
  | mysql
  | tsql
  | sqlite
deriving DecidableEq, Repr, Inhabited

/-- A name that stands for no dialect, in lower case. -/
structure UnknownDialect where
  name : String
deriving DecidableEq, Repr

/-- The wording of the error. -/
def UnknownDialect.message (e : UnknownDialect) : String :=
  "unsupported dialect: " ++ e.name

namespace Dialect

/-- The name by which a dialect is shown and stored. -/
def name : Dialect → String
  | postgres => "postgres"
  | mysql => "mysql"
  | tsql => "tsql"
  | sqlite => "sqlite"

/-- Every dialect. -/
def all : List Dialect := [postgres, mysql, tsql, sqlite]

/-- The dialect with exactly the given stored name. -/
def ofName? (name : String) : Option Dialect :=
  all.find? (·.name == name)

/-- The names under which a dialect is known, in lower case. -/
def aliases : Dialect → List String
  | postgres => ["postgres", "postgresql", "pgsql"]
  | mysql => ["mysql", "mariadb"]
  | tsql => ["tsql", "mssql", "sqlsrv"]
  | sqlite => ["sqlite", "sqlite3"]

/-- Recognises the known names of the dialects without regard to ASCII case. -/
def parse (name : String) : Except UnknownDialect Dialect :=
  let lower := Text.lowerAscii name
  match all.find? (·.aliases.contains lower) with
  | some dialect => .ok dialect
  | none => .error ⟨lower⟩

/-! ## Identifiers -/

/-- The characters that may start a plain identifier. -/
def isPlainStart (c : Char) : Bool :=
  c.isAlpha || c == '_'

/-- The characters that may follow in a plain identifier. -/
def isPlainPart (c : Char) : Bool :=
  c.isAlphanum || c == '_'

/-- A plain identifier is an ASCII letter or underscore followed by ASCII letters, digits and
underscores. -/
def isPlainIdentifier (s : String) : Bool :=
  match s.toList with
  | [] => false
  | c :: rest => isPlainStart c && rest.all isPlainPart

/-- Words that are quoted as identifiers in every dialect. -/
def reservedWords : List String :=
  ["ALL", "AND", "ANY", "AS", "ASC", "BETWEEN", "BY", "CASE", "CAST", "CHECK", "COLUMN",
    "CONSTRAINT", "CREATE", "CROSS", "CURRENT", "CURRENT_DATE", "CURRENT_TIME",
    "CURRENT_TIMESTAMP", "CURRENT_USER", "DEFAULT", "DELETE", "DESC", "DISTINCT", "DROP", "ELSE",
    "END", "EXCEPT", "EXISTS", "FALSE", "FETCH", "FOR", "FOREIGN", "FROM", "FULL", "GRANT",
    "GROUP", "HAVING", "IN", "INNER", "INSERT", "INTERSECT", "INTO", "IS", "JOIN", "KEY", "LEFT",
    "LIKE", "LIMIT", "NOT", "NULL", "OFFSET", "ON", "OR", "ORDER", "OUTER", "PRIMARY",
    "REFERENCES", "RIGHT", "ROW", "ROWS", "SELECT", "SESSION_USER", "SET", "TABLE", "THEN", "TO",
    "TOP", "TRUE", "UNION", "UNIQUE", "UPDATE", "USER", "USING", "VALUES", "WHEN", "WHERE",
    "WITH"]

/-- A reserved word in any ASCII case. -/
def isReservedWord (s : String) : Bool :=
  reservedWords.contains (Text.upperAscii s)

/-- The characters around a quoted identifier. -/
def identifierQuotes : Dialect → Char × Char
  | postgres | sqlite => ('"', '"')
  | mysql => ('\x60', '\x60')
  | tsql => ('[', ']')

/-- A text with every occurrence of one character doubled. -/
def doubled (quote : Char) (s : String) : List Char :=
  s.toList.flatMap fun c => if c = quote then [c, c] else [c]

section Doubled

variable (quote : Char)

@[simp] theorem doubled_empty : doubled quote "" = [] := rfl

@[simp] theorem doubled_self (cs : List Char) :
    doubled quote (String.ofList (quote :: cs)) = quote :: quote :: doubled quote (String.ofList cs) := by
  simp [doubled]

theorem doubled_of_ne {c : Char} (h : c ≠ quote) (cs : List Char) :
    doubled quote (String.ofList (c :: cs)) = c :: doubled quote (String.ofList cs) := by
  simp [doubled, h]

end Doubled

/-- A quoted identifier; its closing quote is doubled inside. -/
def quoteIdentifier (d : Dialect) (s : String) : String :=
  let (opening, closing) := d.identifierQuotes
  String.ofList (opening :: doubled closing s ++ [closing])

/-- An identifier, bare when it is plain and not reserved. -/
def formatIdentifier (d : Dialect) (s : String) : String :=
  if isPlainIdentifier s && !isReservedWord s then s else d.quoteIdentifier s

/-! ## Values and placeholders -/

/-- A string literal with quotes doubled inside. T-SQL marks a literal beyond ASCII as Unicode. -/
def quoteString (d : Dialect) (s : String) : String :=
  let literal := '\'' :: doubled '\'' s ++ ['\'']
  if d = tsql && !s.toList.all (·.toNat < 0x80) then String.ofList ('N' :: literal)
  else String.ofList literal

/-- A truth value. -/
def formatBool : Dialect → Bool → String
  | postgres, true => "true"
  | postgres, false => "false"
  | _, true => "1"
  | _, false => "0"

/-- The character before the name of a placeholder. -/
def placeholderMark : Dialect → String
  | tsql => "@"
  | _ => ":"

/-- A named placeholder. -/
def formatPlaceholder (d : Dialect) (name : String) : String :=
  d.placeholderMark ++ name

/-- Whether a page can only be taken of an ordered result. -/
def needsOrderForPaging : Dialect → Bool
  | tsql => true
  | _ => false

end Dialect

end ReportSql
