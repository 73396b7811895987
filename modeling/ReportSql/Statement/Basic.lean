import ReportSql.Query.Basic
import ReportSql.Token.Lexer

/-!
# Author statements

A SELECT written by a report author, as its tokens and the places where its
outermost clauses start. Parentheses are counted on the way, so a keyword inside
a subquery, a literal or a comment never counts as a clause.

## Main definitions

* `Statement` - tokens, clause starts and the predicates added so far
* `Statement.parse` - the statement written by a text
* `Statement.clauseSpan?` - the token range of a clause
* `Statement.placeholders` - the named parameters of the text
* `Statement.addPredicate` - a further condition on the outermost WHERE

## Design notes

Clause starts are token positions. After a top-level set operation no further
clause is recorded, because clauses then belong to another SELECT.
-/

namespace ReportSql

/-- The outermost clauses. The last one stands for LIMIT, OFFSET and FETCH alike. -/
inductive ClauseKind where
  | select
  | source
  | condition
  | groupBy
  | having
  | orderBy
  | limit
deriving DecidableEq, Repr

/-- A clause and the position of its first keyword. -/
structure Clause where
  kind : ClauseKind
  start : Nat
deriving DecidableEq, Repr

/-- The ways in which a text fails to be a statement. -/
inductive StatementError where
  | lex (cause : LexError)
  | unbalanced
  | empty
deriving DecidableEq, Repr

/-- The wording of an error. -/
def StatementError.message : StatementError → String
  | lex cause => "tokenizer error: " ++ cause.message
  | unbalanced => "unbalanced parentheses"
  | empty => "statement is empty"

/-- A statement with its clause starts and the predicates to be added to its condition. -/
structure Statement where
  dialect : Dialect
  tokens : List Token
  clauses : List Clause
  setOperation : Bool
  predicates : List Expr

namespace Statement

/-! ## Reading -/

/-- A list of tokens without its trailing blanks. -/
def dropTrailingBlanks (tokens : List Token) : List Token :=
  (tokens.reverse.dropWhile Token.isBlank).reverse

/-- A list of tokens without trailing blanks and without one semicolon before them. -/
def dropTerminator (tokens : List Token) : List Token :=
  let trimmed := dropTrailingBlanks tokens
  if trimmed.getLast? = some (.punctuation .semicolon) then dropTrailingBlanks trimmed.dropLast
  else trimmed

/-- The words that combine several SELECTs. -/
def isSetOperation (word : String) : Bool :=
  ["UNION", "INTERSECT", "EXCEPT"].contains word

/-- The clause that a word starts, given the tokens after it. Only the first SELECT counts, and only
as long as no clause was found. -/
def clauseOf? (noneFound : Bool) (word : String) (rest : List Token) : Option ClauseKind :=
  let followedByBy := (Token.firstSignificant? rest).any (·.isKeyword "BY")
  match word with
  | "SELECT" => if noneFound then some .select else none
  | "FROM" => some .source
  | "WHERE" => some .condition
  | "GROUP" => if followedByBy then some .groupBy else none
  | "HAVING" => some .having
  | "ORDER" => if followedByBy then some .orderBy else none
  | "LIMIT" | "OFFSET" | "FETCH" => some .limit
  | _ => none

/-- What is known of the clauses: the parentheses that are open, the clauses found so far with the
latest one first, and whether a set operation was met. -/
structure ClauseScan where
  depth : Nat
  found : List Clause
  setOperation : Bool

/-- Notes an unquoted word outside all parentheses. A clause that repeats the kind of the one before
belongs to it. -/
def ClauseScan.noteWord (scan : ClauseScan) (position : Nat) (word : String)
    (rest : List Token) : ClauseScan :=
  let scan := { scan with setOperation := scan.setOperation || isSetOperation word }
  match clauseOf? scan.found.isEmpty word rest with
  | none => scan
  | some kind =>
    if scan.found.head?.any (·.kind == kind) || scan.setOperation then scan
    else { scan with found := ⟨kind, position⟩ :: scan.found }

/-- Reads one token and the tokens after it; nothing when it closes a parenthesis that was never
opened. -/
def ClauseScan.step? (scan : ClauseScan) (position : Nat) (token : Token)
    (rest : List Token) : Option ClauseScan :=
  match token with
  | .punctuation .openParen => some { scan with depth := scan.depth + 1 }
  | .punctuation .closeParen =>
    match scan.depth with
    | 0 => none
    | depth + 1 => some { scan with depth }
  | _ =>
    match scan.depth, token.unquotedWord? with
    | 0, some word => some (scan.noteWord position word rest)
    | _, _ => some scan

/-- Reads the tokens from a position on. -/
def ClauseScan.run? (scan : ClauseScan) (position : Nat) : List Token → Option ClauseScan
  | [] => if scan.depth = 0 then some scan else none
  | token :: rest =>
    match scan.step? position token rest with
    | none => none
    | some scan => scan.run? (position + 1) rest

/-- The statement made of a list of tokens. -/
def ofTokens (dialect : Dialect) (tokens : List Token) : Except StatementError Statement :=
  if tokens.all Token.isTrivia then
    .error .empty
  else
    match ClauseScan.run? ⟨0, [], false⟩ 0 tokens with
    | none => .error .unbalanced
    | some scan => .ok ⟨dialect, tokens, scan.found.reverse, scan.setOperation, []⟩

/-- The statement written by a text, with outer blanks and one semicolon at the end left out. -/
def parse (sql : String) (dialect : Dialect) : Except StatementError Statement :=
  match Token.tokenize dialect (Text.trim sql) with
  | .error cause => .error (.lex cause)
  | .ok tokens => ofTokens dialect (dropTerminator tokens)

/-! ## Clauses -/

/-- The first clause of a kind. -/
def clause? (s : Statement) (kind : ClauseKind) : Option Clause :=
  s.clauses.find? (·.kind == kind)

/-- Whether a kind of clause is present. -/
def hasClause (s : Statement) (kind : ClauseKind) : Bool :=
  (s.clause? kind).isSome

/-- The range of a clause in a list of clauses, up to the next clause or to the end. -/
def spanIn? (kind : ClauseKind) (stop : Nat) : List Clause → Option (Nat × Nat)
  | [] => none
  | clause :: rest =>
    if clause.kind = kind then
      some (clause.start, (rest.head?.map (·.start)).getD stop)
    else
      spanIn? kind stop rest

/-- The token range of a clause, the end excluded. -/
def clauseSpan? (s : Statement) (kind : ClauseKind) : Option (Nat × Nat) :=
  spanIn? kind s.tokens.length s.clauses

/-! ## Names in braces and placeholders -/

/-- A table name in braces at the head of a list of tokens; it takes three of them. -/
def bracedTable? : List Token → Option String
  | .punctuation .openBrace :: .word name none :: .punctuation .closeBrace :: _ => some name
  | _ => none

/-- A named placeholder at the head of a list of tokens: a colon and a word right after it. -/
def namedPlaceholder? : List Token → Option String
  | .punctuation .colon :: .word name none :: _ => some name
  | _ => none

/-- The names of the placeholders in a list of tokens, from left to right. -/
def placeholdersIn : List Token → List String
  | [] => []
  | token :: rest =>
    match namedPlaceholder? (token :: rest) with
    | some name => name :: placeholdersIn rest
    | none => placeholdersIn rest

/-- The names of the placeholders of a statement, from left to right. -/
def placeholders (s : Statement) : List String :=
  placeholdersIn s.tokens

/-- The statement with a further condition on its outermost WHERE. -/
def addPredicate (s : Statement) (predicate : Expr) : Statement :=
  { s with predicates := s.predicates ++ [predicate] }

end Statement

end ReportSql
