import ReportSql.Proofs.Token.Balanced

/-!
# FROM clauses

The grammar of the table lists after FROM, as trees that carry their own tokens:
names, derived tables and lists in parentheses, each with an alias and followed
by joins. Which names of a tree the scan of a statement passes over is read off
the tree.

## Main definitions

* `TableList` - the table lists, with `TableList.tokens` and `TableList.names`
* `TableList.missed` - the names that are passed over
* `FromClause` - a SELECT up to the end of its table list
-/

namespace ReportSql

/-! ## Pieces -/

/-- A part of a dotted name after the first one, with what stands around the point before it. -/
structure NamePart where
  before : Gap
  after : Gap
  part : String
  quote : Option Char

/-- A table name. -/
inductive TableName where
  | braced (name : String)
  | dotted (first : String) (quote : Option Char) (parts : List NamePart)
      (plain : (Token.word first quote).isKeyword "SELECT" = false)

/-- The alias of a table. A bare one is no reserved word. -/
inductive TableAlias where
  | absent
  | bare (gap : Gap) (word : String) (quote : Option Char)
      (free : (Token.word word quote).isKeyword "AS" = false ∧
        (Statement.aliasName? (.word word quote)).isSome = true)
  | named (gap : Gap) (as : KeywordToken "AS") (gap' : Gap) (word : String) (quote : Option Char)

/-- The words before JOIN. -/
def joinWords : List String :=
  ["CROSS", "FULL", "INNER", "LEFT", "NATURAL", "OUTER", "RIGHT"]

/-- A word before JOIN. -/
structure JoinWord where
  gap : Gap
  word : Token
  known : ∃ keyword ∈ joinWords, word.isKeyword keyword = true

/-- The condition of a join. -/
inductive JoinCondition where
  | on (gap : Gap) (keyword : KeywordToken "ON") (condition : BalancedTokens)
  | columns (gap : Gap) (keyword : KeywordToken "USING") (names : BalancedTokens)

/-! ## Trees -/

mutual

/-- A reference to a table: a name, a derived table or a list in parentheses. -/
inductive TableSource where
  | table (gap : Gap) (name : TableName) (label : TableAlias)
  | derived (gap : Gap) (query : BalancedTokens)
      (select : (Token.firstSignificant? query.1).any (·.isKeyword "SELECT") = true)
      (label : TableAlias)
  | group (gap : Gap) (tables : TableList) (close : Gap) (label : TableAlias)

/-- A comma list of references, each followed by joins. -/
inductive TableList where
  | last (source : TableSource) (joins : TableJoins)
  | more (source : TableSource) (joins : TableJoins) (gap : Gap) (rest : TableList)

/-- The joins that follow a reference. -/
inductive TableJoins where
  | done
  | join (words : List JoinWord) (gap : Gap) (keyword : KeywordToken "JOIN") (source : TableSource)
      (condition : JoinCondition) (rest : TableJoins)

end

/-! ## The tokens of a tree -/

/-- The tokens of a part of a dotted name. -/
def NamePart.tokens (p : NamePart) : List Token :=
  p.before.1 ++ .punctuation .period :: (p.after.1 ++ [.word p.part p.quote])

/-- The tokens of a name. -/
def TableName.tokens : TableName → List Token
  | .braced name => [.punctuation .openBrace, .word name none, .punctuation .closeBrace]
  | .dotted first quote parts _ => .word first quote :: parts.flatMap NamePart.tokens

/-- The tokens of an alias. -/
def TableAlias.tokens : TableAlias → List Token
  | .absent => []
  | .bare gap word quote _ => gap.1 ++ [.word word quote]
  | .named gap as gap' word quote => gap.1 ++ as.1 :: (gap'.1 ++ [.word word quote])

/-- The tokens of a word before JOIN. -/
def JoinWord.tokens (w : JoinWord) : List Token :=
  w.gap.1 ++ [w.word]

/-- The tokens of a condition. -/
def JoinCondition.tokens : JoinCondition → List Token
  | .on gap keyword condition => gap.1 ++ keyword.1 :: condition.1
  | .columns gap keyword names => gap.1 ++ keyword.1 :: names.1

mutual

/-- The tokens of a reference. -/
def TableSource.tokens : TableSource → List Token
  | .table gap name label => gap.1 ++ (name.tokens ++ label.tokens)
  | .derived gap query _ label =>
    gap.1 ++ .punctuation .openParen :: (query.1 ++ .punctuation .closeParen :: label.tokens)
  | .group gap tables close label =>
    gap.1 ++ .punctuation .openParen ::
      ((tables.tokens ++ close.1) ++ .punctuation .closeParen :: label.tokens)

/-- The tokens of a comma list. -/
def TableList.tokens : TableList → List Token
  | .last source joins => source.tokens ++ joins.tokens
  | .more source joins gap rest =>
    source.tokens ++ (joins.tokens ++ (gap.1 ++ .punctuation .comma :: rest.tokens))

/-- The tokens of joins. -/
def TableJoins.tokens : TableJoins → List Token
  | .done => []
  | .join words gap keyword source condition rest =>
    words.flatMap JoinWord.tokens ++ (gap.1 ++ keyword.1 ::
      (source.tokens ++ (condition.tokens ++ rest.tokens)))

end

section

open Token

theorem NamePart.balanced (p : NamePart) : Balanced p.tokens :=
  (balanced_gap _).append
    (.other (by decide) (by decide) ((balanced_gap _).append (.word _ _ .nil)))

theorem TableName.balanced (n : TableName) : Balanced n.tokens := by
  cases n with
  | braced name =>
    exact .other (by decide) (by decide) (.word _ _ (.other (by decide) (by decide) .nil))
  | dotted first quote parts plain => exact .word _ _ (.flatMap NamePart.balanced parts)

theorem TableAlias.balanced (a : TableAlias) : Balanced a.tokens := by
  cases a with
  | absent => exact .nil
  | bare gap word quote free => exact (balanced_gap _).append (.word _ _ .nil)
  | named gap as gap' word quote =>
    exact (balanced_gap _).append (.keyword as.2 ((balanced_gap _).append (.word _ _ .nil)))

theorem JoinWord.balanced (w : JoinWord) : Balanced w.tokens := by
  obtain ⟨keyword, -, hword⟩ := w.known
  exact (balanced_gap _).append (.keyword hword .nil)

theorem JoinCondition.balanced (c : JoinCondition) : Balanced c.tokens := by
  cases c with
  | on gap keyword condition => exact (balanced_gap _).append (.keyword keyword.2 condition.2)
  | columns gap keyword names => exact (balanced_gap _).append (.keyword keyword.2 names.2)

mutual

theorem TableSource.balanced : ∀ source : TableSource, Balanced source.tokens
  | .table gap name label => by
    rw [TableSource.tokens]
    exact (balanced_gap _).append (name.balanced.append label.balanced)
  | .derived gap query select label => by
    rw [TableSource.tokens]
    exact (balanced_gap _).append (.enclosed query.2 label.balanced)
  | .group gap tables close label => by
    rw [TableSource.tokens]
    exact (balanced_gap _).append
      (.enclosed (tables.balanced.append (balanced_gap _)) label.balanced)

theorem TableList.balanced : ∀ tables : TableList, Balanced tables.tokens
  | .last source joins => by
    rw [TableList.tokens]
    exact source.balanced.append joins.balanced
  | .more source joins gap rest => by
    rw [TableList.tokens]
    refine source.balanced.append (joins.balanced.append ((balanced_gap _).append ?_))
    exact .other (by decide) (by decide) rest.balanced

theorem TableJoins.balanced : ∀ joins : TableJoins, Balanced joins.tokens
  | .done => by
    rw [TableJoins.tokens]
    exact .nil
  | .join words gap keyword source condition rest => by
    rw [TableJoins.tokens]
    refine (Balanced.flatMap JoinWord.balanced words).append ((balanced_gap _).append ?_)
    exact .keyword keyword.2 (source.balanced.append (condition.balanced.append rest.balanced))

end

/-! ## What follows a reference -/

/-- A text after which no name goes on. -/
def Token.EndsName (tokens : List Token) : Prop :=
  firstSignificant? tokens ≠ some (.punctuation .period)

theorem Token.EndsName.keyword {keyword : String} {t : Token} (h : t.isKeyword keyword = true)
    (gap : Gap) (tokens : List Token) : EndsName (gap.1 ++ t :: tokens) := by
  unfold EndsName
  rw [firstSignificant?_gap, firstSignificant?_keyword h]
  intro heq
  exact isKeyword_ne_punctuation h _ (Option.some.inj heq)

theorem Token.EndsName.head? {tokens : List Token} (h : EndsName tokens) :
    tokens.head? ≠ some (.punctuation .period) := by
  intro hhead
  obtain ⟨rest, rfl⟩ := List.head?_eq_some_iff.1 hhead
  exact h rfl

theorem TableAlias.endsName (a : TableAlias) {tail : List Token} (h : EndsName tail) :
    EndsName (a.tokens ++ tail) := by
  cases a with
  | absent => exact h
  | bare gap word quote free =>
    rw [TableAlias.tokens, List.append_assoc]
    unfold EndsName
    rw [firstSignificant?_gap]
    exact fun heq => Token.noConfusion (Option.some.inj heq)
  | named gap as gap' word quote =>
    rw [TableAlias.tokens, List.append_assoc]
    exact EndsName.keyword as.2 _ _

theorem JoinCondition.endsName (c : JoinCondition) (tail : List Token) :
    EndsName (c.tokens ++ tail) := by
  cases c with
  | on gap keyword condition =>
    rw [JoinCondition.tokens, List.append_assoc]
    exact EndsName.keyword keyword.2 _ _
  | columns gap keyword names =>
    rw [JoinCondition.tokens, List.append_assoc]
    exact EndsName.keyword keyword.2 _ _

theorem TableJoins.endsName (joins : TableJoins) {tail : List Token} (h : EndsName tail) :
    EndsName (joins.tokens ++ tail) := by
  cases joins with
  | done => rwa [TableJoins.tokens]
  | join words gap keyword source condition rest =>
    rw [TableJoins.tokens, List.append_assoc]
    cases words with
    | nil =>
      rw [List.flatMap_nil, List.nil_append, List.append_assoc]
      exact EndsName.keyword keyword.2 _ _
    | cons w words =>
      obtain ⟨word, -, hword⟩ := w.known
      rw [List.flatMap_cons, JoinWord.tokens, List.append_assoc, List.append_assoc]
      exact EndsName.keyword hword _ _

end

/-! ## The names of a tree -/

/-- The text of a name, its parts joined by points. -/
def TableName.text : TableName → String
  | .braced name => name
  | .dotted first _ parts _ => first ++ String.join (parts.map fun p => "." ++ p.part)

/-- Whether a name stands in braces. -/
def TableName.isBraced : TableName → Bool
  | .braced _ => true
  | .dotted .. => false

mutual

/-- The table names of a reference. -/
def TableSource.names : TableSource → List TableName
  | .table _ name _ => [name]
  | .derived .. => []
  | .group _ tables _ _ => tables.names

/-- The table names of a comma list, derived tables left out. -/
def TableList.names : TableList → List TableName
  | .last source joins => source.names ++ joins.names
  | .more source joins _ rest => source.names ++ joins.names ++ rest.names

/-- The table names of joins. -/
def TableJoins.names : TableJoins → List TableName
  | .done => []
  | .join _ _ _ source _ rest => source.names ++ rest.names

end

/-! ## The names passed over -/

/-- Whether nothing stands around the points of a name. -/
def TableName.isAdjacent : TableName → Bool
  | .braced _ => true
  | .dotted _ _ parts _ => parts.all fun p => p.before.1.isEmpty && p.after.1.isEmpty

/-- Whether an alias is read as one: after AS a reserved word may stand, and then it is not. -/
def TableAlias.isRead : TableAlias → Bool
  | .absent | .bare .. => true
  | .named _ _ _ word quote => (Statement.aliasName? (.word word quote)).isSome

/-- Whether the reader of a list comes to the end of a reference. -/
def TableSource.isPassed : TableSource → Bool
  | .table _ name label => name.isAdjacent && label.isRead
  | .derived _ _ _ label | .group _ _ _ label => label.isRead

/-- Whether there are no joins. -/
def TableJoins.isDone : TableJoins → Bool
  | .done => true
  | .join .. => false

mutual

/-- The names of a reference that are passed over, given whether the reader of a list comes to it. -/
def TableSource.missed (reached : Bool) : TableSource → List TableName
  | .table _ name _ => if reached && name.isAdjacent then [] else [name]
  | .derived .. => []
  | .group _ tables _ _ => tables.missed reached

/-- The names of a comma list that are passed over. The reader of the list stops before the first
join and does not come back after it. -/
def TableList.missed (reached : Bool) : TableList → List TableName
  | .last source joins => source.missed reached ++ joins.missed
  | .more source joins _ rest =>
    source.missed reached ++ joins.missed ++
      rest.missed (reached && joins.isDone && source.isPassed)

/-- The names of joins that are passed over. Every JOIN starts a reader of its own. -/
def TableJoins.missed : TableJoins → List TableName
  | .done => []
  | .join _ _ _ source _ rest => source.missed true ++ rest.missed

end

/-! ## Clauses -/

/-- A SELECT up to the end of its table list. -/
structure FromClause where
  select : KeywordToken "SELECT"
  fields : BalancedTokens
  keyword : KeywordToken "FROM"
  tables : TableList

namespace FromClause

/-- The tokens of a clause. -/
def tokens (c : FromClause) : List Token :=
  c.select.1 :: (c.fields.1 ++ c.keyword.1 :: c.tables.tokens)

/-- The last of some tokens, the one before them included, that is neither blank nor comment. -/
def latest (previous : Option Token) (tokens : List Token) : Option Token :=
  tokens.foldl (fun previous t => if t.isTrivia then previous else some t) previous

/-- Whether FROM stands right after the word DISTINCT, where it is taken for a distinctness test. -/
def followsDistinct (c : FromClause) : Bool :=
  (latest (some c.select.1) c.fields.1).any (·.isKeyword "DISTINCT")

/-- The names of a clause that are passed over. -/
def missed (c : FromClause) : List TableName :=
  c.tables.missed (!c.followsDistinct)

/-- A clause stands in a list of tokens, and no name goes on after its table list. -/
def StandsIn (c : FromClause) (tokens : List Token) : Prop :=
  ∃ before after, tokens = before ++ (c.tokens ++ after) ∧
    Token.firstSignificant? after ≠ some (.punctuation .period)

end FromClause

/-- A name is among the tables of a statement. -/
def TableName.MentionedIn (n : TableName) (mentions : List TableMention) : Prop :=
  ∃ m ∈ mentions, m.name = n.text ∧ m.braced = n.isBraced

end ReportSql
