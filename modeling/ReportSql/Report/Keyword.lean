import ReportSql.Query.Basic
import ReportSql.Text.Blank

/-!
# Keywords of declarative reports

The closed sets of words that a declarative report may use: aggregates, filter
operators, logic, sort directions and join types. Blanks around a word and ASCII
case do not matter; every other word is refused.

## Main definitions

* `UnsupportedKeyword` - a word outside the set that was asked for
* `Aggregate.parse`, `FilterOperator.parse`, `Logic.parse` - words of reports
* `Direction.parse`, `JoinKind.parse` - words shared with queries
-/

namespace ReportSql

/-- The sets of words. -/
inductive KeywordSet where
  | aggregate
  | operator
  | logic
  | direction
  | joinType
deriving DecidableEq, Repr

/-- The name of a set of words. -/
def KeywordSet.name : KeywordSet → String
  | aggregate => "aggregate"
  | operator => "operator"
  | logic => "logic"
  | direction => "direction"
  | joinType => "join type"

/-- A word outside its set. -/
structure UnsupportedKeyword where
  set : KeywordSet
  value : String
deriving DecidableEq, Repr

/-- The wording of the error. -/
def UnsupportedKeyword.message (e : UnsupportedKeyword) : String :=
  "unsupported " ++ e.set.name ++ ": '" ++ e.value ++ "'"

/-- A word without outer blanks and in upper case. -/
def keywordOf (s : String) : String :=
  Text.upperAscii (Text.trim s)

/-- The functions that summarise the rows of a group. -/
inductive Aggregate where
  | count
  | sum
  | avg
  | min
  | max
deriving DecidableEq, Repr

namespace Aggregate

/-- The name of the function in lower case. -/
def name : Aggregate → String
  | count => "count"
  | sum => "sum"
  | avg => "avg"
  | min => "min"
  | max => "max"

/-- Reads the name of an aggregate. -/
def parse (s : String) : Except UnsupportedKeyword Aggregate :=
  match keywordOf s with
  | "COUNT" => .ok count
  | "SUM" => .ok sum
  | "AVG" => .ok avg
  | "MIN" => .ok min
  | "MAX" => .ok max
  | _ => .error ⟨.aggregate, s⟩

/-- The call of the function. -/
def apply (a : Aggregate) (e : Expr) : Expr :=
  .call (Text.upperAscii a.name) [e]

end Aggregate

/-- How a filter compares its column with its parameter. -/
inductive FilterOperator where
  | eq
  | ne
  | lt
  | lte
  | gt
  | gte
  | like
  | isIn
deriving DecidableEq, Repr

namespace FilterOperator

/-- Reads an operator. -/
def parse (s : String) : Except UnsupportedKeyword FilterOperator :=
  match keywordOf s with
  | "=" => .ok eq
  | "!=" | "<>" => .ok ne
  | "<" => .ok lt
  | "<=" => .ok lte
  | ">" => .ok gt
  | ">=" => .ok gte
  | "LIKE" => .ok like
  | "IN" => .ok isIn
  | _ => .error ⟨.operator, s⟩

/-- What keeps the two bounds of a range on one column apart. -/
def boundSuffix? : FilterOperator → Option String
  | gt | gte => some "_from"
  | lt | lte => some "_to"
  | _ => none

/-- The comparison of a column with a single value. -/
def compare (op : FilterOperator) (column value : Expr) : Expr :=
  match op with
  | eq => .binary .eq column value
  | ne => .binary .ne column value
  | lt => .binary .lt column value
  | lte => .binary .lte column value
  | gt => .binary .gt column value
  | gte => .binary .gte column value
  | like => .binary .like column value
  | isIn => .inList column [value] false

end FilterOperator

/-- How a filter combines with the one before it. -/
inductive Logic where
  | and
  | or
deriving DecidableEq, Repr

/-- Reads how a filter combines; nothing means AND. -/
def Logic.parse (s : String) : Except UnsupportedKeyword Logic :=
  match keywordOf s with
  | "" | "AND" => .ok .and
  | "OR" => .ok .or
  | _ => .error ⟨.logic, s⟩

/-- Reads a sort direction; nothing means ascending. -/
def Direction.parse (s : String) : Except UnsupportedKeyword Direction :=
  match keywordOf s with
  | "" | "ASC" => .ok .asc
  | "DESC" => .ok .desc
  | _ => .error ⟨.direction, s⟩

/-- Reads a join type. -/
def JoinKind.parse (s : String) : Except UnsupportedKeyword JoinKind :=
  match keywordOf s with
  | "INNER" => .ok .inner
  | "LEFT" => .ok .left
  | _ => .error ⟨.joinType, s⟩

end ReportSql
