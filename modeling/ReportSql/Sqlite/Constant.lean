import ReportSql.Execution.Rows
import ReportSql.Sqlite.Datum
import ReportSql.Sqlite.Token
import ReportSql.Text.Case

/-!
# Queries on constants

The answers of an SQLite database without tables. Only a `SELECT` of literals and
parameters has a result there, of one row; any other query fails. Literals and parameters
may stand in brackets, after operators of one operand, and before tests for null.

## Main definitions

* `Sqlite.ConstantQuery` - the columns and parameters of a query on constants
* `Sqlite.ConstantQuery.parse?` - the query written by a text
* `Sqlite.bind` - the values of the parameters of a query
* `Sqlite.answer` - what the database answers
-/

namespace ReportSql.Sqlite

/-- What stands in a column. -/
inductive Operand where
  | value (value : Datum)
  /-- A number without a sign, as a token. -/
  | number (token : Token)
  /-- The parameter with an index. -/
  | parameter (index : Nat)
  /-- An operand after a plus sign, which has no effect. -/
  | plus (operand : Operand)
  | minus (operand : Operand)
  /-- An operand after a tilde, with the opposite bits. -/
  | complement (operand : Operand)
  | denial (operand : Operand)
  /-- Whether an operand is null, or whether it is not. -/
  | nullTest (isNull : Bool) (operand : Operand)

/-- The columns of a query, and the spellings of its parameters by index, where they have one. -/
structure ConstantQuery where
  columns : List (String × Operand)
  slots : List (Option String)

/-! ## Values -/

/-- The bytes written by pairs of hexadecimal digits. -/
def bytesOf : List Char → List Nat
  | a :: b :: rest => Text.valueOf 16 [a, b] :: bytesOf rest
  | _ => []

/-- The value of a number after a minus sign or without one. A hexadecimal number is one of 64 bits,
and the least of them has no negation. -/
def numberValue? (negative : Bool) : Token → Option Datum
  | .number n => some (.number (Numeral.numeric { n with negative }))
  | .hexNumber digits =>
    let digits := digits.dropWhile (· == '0')
    let n := (Int64.ofNat (Text.valueOf 16 digits)).toInt
    if 16 < digits.length then none
    else if negative then if n = Number.leastInteger then none else some (.integer (-n))
    else some (.integer n)
  | _ => none

/-- The value of an operand under the values of the parameters, or nothing if it has a number out of
range. A minus sign right before a number belongs to it. -/
def Operand.eval? (values : List Datum) : Operand → Option Datum
  | value v => some v
  | number token => numberValue? false token
  | parameter index => some (values.getD (index - 1) .null)
  | plus operand => operand.eval? values
  | minus (number token) => numberValue? true token
  | minus operand => (operand.eval? values).map Datum.negated
  | complement operand => (operand.eval? values).map Datum.complement
  | denial operand => (operand.eval? values).map Datum.denied
  | nullTest isNull operand =>
    (operand.eval? values).map fun v => Datum.ofBool ((v == .null) == isNull)

/-- How deep the operators of an operand are nested. -/
def Operand.height : Operand → Nat
  | value _ | number _ | parameter _ => 1
  | plus operand | minus operand | complement operand | denial operand | nullTest _ operand =>
    operand.height + 1

/-- The greatest height of an operand. -/
def greatestHeight : Nat := 1000

/-- An operand after a sign. A plus sign at its head gives way to it. -/
def Operand.signed (negative : Bool) (operand : Operand) : Operand :=
  let inner := match operand with
    | plus inner => inner
    | operand => operand
  if negative then minus inner else plus inner

/-! ## Parameters -/

/-- The greatest index that a parameter may have. -/
def greatestIndex : Nat := 32766

/-- The parameters after one more of them is met, and its index: that of one spelled alike, or the
next one. -/
def share (slots : List (Option String)) (spelling : String) : List (Option String) × Nat :=
  match slots.findIdx? (· == some spelling) with
  | some i => (slots, i + 1)
  | none => (slots ++ [some spelling], slots.length + 1)

/-- The parameters after one more of them is met, and its index. One without a name takes the next
index, one with a number the index of that number, and others share an index if they are spelled
alike. A hash mark before a digit marks no parameter. -/
def assign (slots : List (Option String)) (spelling : String) :
    Option (List (Option String) × Nat) :=
  let added : Option (List (Option String) × Nat) := match spelling.toList with
    | ['?'] => some (slots ++ [none], slots.length + 1)
    | '?' :: digits =>
      let index := Text.valueOf 10 digits
      if index = 0 then none
      else
        let slots := slots ++ List.replicate (min index greatestIndex - slots.length) none
        let spelled := (slots[index - 1]?.join).getD spelling
        some (slots.set (index - 1) (some spelled), index)
    | '#' :: c :: _ => if c.isDigit then none else some (share slots spelling)
    | _ => some (share slots spelling)
  added.filter fun (_, index) => index ≤ greatestIndex

/-- The name of a parameter: its spelling without the marks before it. -/
def parameterName (spelling : String) : String :=
  String.ofList (spelling.toList.dropWhile fun c => c == ':' || c == '@' || c == '$')

/-- The value of the parameter with an index. -/
def bindSlot (params : Params) (index : Nat) : Option String → Except BackendError Datum
  | none => .error (.missingParameter ("?" ++ toString index))
  | some spelling =>
    let name := parameterName spelling
    match params.get? name with
    | none => .error (.missingParameter name)
    | some value =>
      match Datum.ofParam? value with
      | some value => .ok value
      | none => .error (.unsupportedValue name)

/-- The values of parameters from an index on; the first that has none decides. -/
def bindFrom (params : Params) (index : Nat) :
    List (Option String) → Except BackendError (List Datum)
  | [] => .ok []
  | slot :: rest =>
    match bindSlot params index slot with
    | .error e => .error e
    | .ok value => (bindFrom params (index + 1) rest).map (value :: ·)

/-- The values of the parameters of a query. -/
def bind (params : Params) (slots : List (Option String)) : Except BackendError (List Datum) :=
  bindFrom params 1 slots

/-! ## Texts -/

/-- The words that cannot name a column. -/
def reservedWords : List String :=
  ["ADD", "ALL", "ALTER", "AND", "AS", "AUTOINCREMENT", "BETWEEN", "CASE", "CHECK", "COLLATE",
    "COMMIT", "CONSTRAINT", "CREATE", "DEFAULT", "DEFERRABLE", "DELETE", "DISTINCT", "DROP",
    "ELSE", "ESCAPE", "EXCEPT", "EXISTS", "FOREIGN", "FROM", "GROUP", "HAVING", "IN", "INDEX",
    "INSERT", "INTERSECT", "INTO", "IS", "ISNULL", "JOIN", "LIMIT", "NOT", "NOTHING", "NOTNULL",
    "NULL", "ON", "OR", "ORDER", "PRIMARY", "REFERENCES", "RETURNING", "SELECT", "SET", "TABLE",
    "THEN", "TO", "TRANSACTION", "UNION", "UNIQUE", "UPDATE", "USING", "VALUES", "WHEN", "WHERE"]

/-- The words that can name a column only after `AS`: words of joins and of comparisons. -/
def markedWords : List String :=
  ["CROSS", "FULL", "GLOB", "INDEXED", "INNER", "LEFT", "LIKE", "MATCH", "NATURAL", "OUTER",
    "REGEXP", "RIGHT"]

/-- Whether a token is a certain word in any case. -/
def isWord (word : String) : Token → Bool
  | .word text => Text.upperAscii text == word
  | _ => false

/-- The name of a column. -/
def columnName? : Token → Option String
  | .word text => if reservedWords.contains (Text.upperAscii text) then none else some text
  | .quotedName _ name | .string name => some name
  | _ => none

/-- The name of a column without the word for it. -/
def bareName? : Token → Option String
  | .word text =>
    if markedWords.contains (Text.upperAscii text) then none else columnName? (.word text)
  | token => columnName? token

/-- The value of a literal other than a number. A text in double quotes that names no column is a
text. -/
def literal? : Token → Option Datum
  | .string content | .quotedName '"' content => some (.text content)
  | .blob digits => some (.blob (bytesOf digits))
  | .word text =>
    match Text.upperAscii text with
    | "NULL" => some .null
    | "TRUE" => some (.ofBool true)
    | "FALSE" => some (.ofBool false)
    | _ => none
  | _ => none

/-- The words of a token and of the tokens after it that are unquoted words. -/
def leadingWords : List Lexeme → List String
  | ⟨.word text, _⟩ :: rest => Text.upperAscii text :: leadingWords rest
  | _ => []

/-- The test for null that words start with: whether it asks for null, and how many words it has. -/
def nullTest? : List String → Option (Bool × Nat)
  | "ISNULL" :: _ => some (true, 1)
  | "NOTNULL" :: _ => some (false, 1)
  | "IS" :: "NULL" :: _ => some (true, 2)
  | "NOT" :: "NULL" :: _ => some (false, 2)
  | "IS" :: "NOT" :: "NULL" :: _ => some (false, 3)
  | _ => none

/-- An operand with at most `fuel` tests for null after it, and the tokens after them. -/
def withTests : Nat → Operand → List Lexeme → Operand × List Lexeme
  | 0, operand, lexemes => (operand, lexemes)
  | fuel + 1, operand, lexemes =>
    match nullTest? (leadingWords (lexemes.take 3)) with
    | some (isNull, words) => withTests fuel (.nullTest isNull operand) (lexemes.drop words)
    | none => (operand, lexemes)

/-- What stands at the head of a column, in at most `fuel` steps: a parameter or a literal, possibly
in brackets and with operators. Tests for null belong to it unless it is `tight`, after an
operator that binds closer. Gives the parameters after it and the tokens after it. -/
def operand? : Nat → Bool → List (Option String) → List Lexeme →
    Option (Operand × List (Option String) × List Lexeme)
  | 0, _, _, _ | _, _, _, [] => none
  | fuel + 1, tight, slots, ⟨token, _⟩ :: rest => do
    let (operand, slots, rest) ← match token with
      | .parameter text =>
        (assign slots text).map fun (slots, index) => (.parameter index, slots, rest)
      | .symbol '-' => (operand? fuel true slots rest).map fun (operand, after) =>
        (operand.signed true, after)
      | .symbol '+' => (operand? fuel true slots rest).map fun (operand, after) =>
        (operand.signed false, after)
      | .symbol '~' => (operand? fuel true slots rest).map fun (operand, after) =>
        (.complement operand, after)
      | .symbol '(' =>
        match operand? fuel false slots rest with
        | some (operand, slots, ⟨.symbol ')', _⟩ :: rest) => some (operand, slots, rest)
        | _ => none
      | .number _ | .hexNumber _ => some (.number token, slots, rest)
      | token =>
        if isWord "NOT" token then
          (operand? fuel false slots rest).map fun (operand, after) => (.denial operand, after)
        else (literal? token).map fun value => (.value value, slots, rest)
    if tight then some (operand, slots, rest)
    else
      let (operand, rest) := withTests rest.length operand rest
      some (operand, slots, rest)

/-- The name given to a column, if there is one, and the tokens after it. -/
def label? : List Lexeme → Option (Option String × List Lexeme)
  | ⟨token, source⟩ :: rest =>
    if isWord "AS" token then
      match rest with
      | name :: rest => (columnName? name.token).map fun name => (some name, rest)
      | [] => none
    else
      match bareName? token with
      | some name => some (some name, rest)
      | none => some (none, ⟨token, source⟩ :: rest)
  | [] => some (none, [])

/-- The greatest number of columns. -/
def greatestWidth : Nat := 2000

/-- The columns of a query, at most `fuel` of them, up to its end or a semicolon. A column without a
name is named by its text. -/
def columns? : Nat → List (Option String) → List Lexeme → Option ConstantQuery
  | 0, _, _ => none
  | fuel + 1, slots, lexemes => do
    let (operand, slots, after) ← operand? (lexemes.length + 1) false slots lexemes
    if greatestHeight < operand.height || (operand.eval? []).isNone then none
    else
      let (label, rest) ← label? after
      let column := (label.getD (spanText lexemes after), operand)
      match rest with
      | [] | ⟨.symbol ';', _⟩ :: _ => some ⟨[column], slots⟩
      | ⟨.symbol ',', _⟩ :: rest =>
        let query ← columns? fuel slots rest
        some { query with columns := column :: query.columns }
      | _ => none

/-- The tokens after the word for all rows or for distinct ones, which are the same here. -/
def afterQuantifier : List Lexeme → List Lexeme
  | first :: rest =>
    if isWord "ALL" first.token || isWord "DISTINCT" first.token then rest else first :: rest
  | [] => []

/-- The query written by a text, after any number of semicolons. -/
def ConstantQuery.parse? (sql : String) : Option ConstantQuery :=
  match (lexemes sql).dropWhile (·.token == .symbol ';') with
  | first :: rest =>
    if isWord "SELECT" first.token then columns? greatestWidth [] (afterQuantifier rest) else none
  | [] => none

/-! ## Answers -/

/-- What a database without tables answers. -/
def answer (sql : String) (params : Params) : Except BackendError RowSet :=
  match ConstantQuery.parse? sql with
  | none => .error (.sqlite "not a query on constants")
  | some query =>
    match bind params query.slots with
    | .error e => .error e
    | .ok values =>
      let value (operand : Operand) : Datum := (operand.eval? values).getD .null
      .ok ⟨query.columns.map (·.1), [query.columns.map fun (_, operand) => (value operand).toJson]⟩

end ReportSql.Sqlite
