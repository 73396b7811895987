import ReportSql.Proofs.Query.Nested
import ReportSql.Proofs.Statement.Expansion
import ReportSql.Proofs.Token.Apart

/-!
# Tokens of generated fragments

A generated fragment prints the same text as one or a few tokens, and the tokens
of nested fragments match in their parentheses.

## Main definitions

* `Fragment.written`, `Expr.written` - the tokens of a fragment and of an expression

## Main results

* `Expr.textOf_written`, `Expr.balanced_written` - their text and their parentheses
-/

namespace ReportSql

open Token

/-- The tokens of a keyword. -/
def Keyword.written : Keyword → List Token
  | groupBy => [.word "GROUP" none, .blank .space, .word "BY" none]
  | orderBy => [.word "ORDER" none, .blank .space, .word "BY" none]
  | keyword => [.word keyword.text none]

theorem Keyword.textOf_written (word : Keyword) : textOf word.written = word.text := by
  cases word <;> decide

/-- The token of an operator between two expressions. -/
def BinaryOp.written : BinaryOp → Token
  | and => .word "AND" none
  | or => .word "OR" none
  | like => .word "LIKE" none
  | op => .operator op.text

theorem BinaryOp.text_written (op : BinaryOp) : op.written.text = op.text := by
  cases op <;> decide

namespace Fragment

/-- The tokens of an integer. -/
def writtenInteger : Int → List Token
  | .ofNat n => [.number (toString n) false]
  | .negSucc n => [.operator "-", .number (toString (n + 1)) false]

/-- The tokens of a fragment. -/
def written (d : Dialect) : Fragment → List Token
  | keyword name => name.written
  | operator op => [op.written]
  | comma => [.punctuation .comma]
  | dot => [.punctuation .period]
  | star => [.operator "*"]
  | openParen => [.punctuation .openParen]
  | closeParen => [.punctuation .closeParen]
  | space => [.blank .space]
  | newline => [.blank .newline]
  | indent levels => List.replicate (2 * levels) (.blank .space)
  | identifier name => [Statement.tableToken d name]
  | integer value => writtenInteger value
  | function name => [.word (Text.upper name) none]
  | placeholder name => Statement.placeholderTokens d name

variable {d : Dialect}

theorem textOf_replicate_space (n : Nat) :
    textOf (List.replicate n (.blank .space)) = String.ofList (List.replicate n ' ') := by
  apply String.toList_injective
  rw [toList_textOf]
  induction n with
  | zero => rfl
  | succ n ih =>
    rw [List.replicate_succ, charsOf_cons, ih]
    simp [List.replicate_succ, Blank.char]

theorem textOf_singleton (t : Token) : textOf [t] = t.text := by
  simp [textOf]

theorem textOf_writtenInteger (value : Int) : textOf (writtenInteger value) = toString value := by
  cases value with
  | ofNat n => exact textOf_singleton _
  | negSucc n =>
    rw [writtenInteger, Statement.textOf_cons, textOf_singleton]
    rfl

theorem textOf_written (f : Fragment) : textOf (f.written d) = f.text d := by
  cases f with
  | keyword name => exact name.textOf_written
  | operator op => exact (textOf_singleton _).trans op.text_written
  | indent levels => exact textOf_replicate_space _
  | identifier name => exact (textOf_singleton _).trans (Statement.tableToken_text name)
  | integer value => exact textOf_writtenInteger value
  | function name => exact textOf_singleton _
  | placeholder name => exact Statement.textOf_placeholderTokens name
  | _ => rfl

theorem textOf_flatMap_written (fragments : List Fragment) :
    textOf (fragments.flatMap (written d)) = render d fragments := by
  induction fragments with
  | nil => rfl
  | cons f rest ih =>
    rw [List.flatMap_cons, Statement.textOf_append, textOf_written, ih]
    simp [render]

theorem render_append (d : Dialect) (first second : List Fragment) :
    render d (first ++ second) = render d first ++ render d second := by
  simp [render, String.join_append]

theorem isParen_written {f : Fragment} (hopen : f ≠ .openParen) (hclose : f ≠ .closeParen) :
    ∀ t ∈ f.written d, t ≠ .punctuation .openParen ∧ t ≠ .punctuation .closeParen := by
  cases f with
  | openParen => exact absurd rfl hopen
  | closeParen => exact absurd rfl hclose
  | keyword name => cases name <;> simp [written, Keyword.written]
  | operator op => cases op <;> simp [written, BinaryOp.written]
  | indent levels =>
    intro t ht
    rw [List.eq_of_mem_replicate ht]
    simp
  | identifier name =>
    obtain ⟨value, quote, hword⟩ := Statement.tableToken_eq_word (d := d) name
    simp [written, hword]
  | integer value => cases value <;> simp [written, writtenInteger]
  | placeholder name =>
    rw [written, Statement.placeholderTokens]
    split <;> simp
  | _ => simp [written]

theorem Nested.balanced_written {free : Fragment → Prop} {fragments : List Fragment}
    (h : Nested free fragments) : Balanced (fragments.flatMap (written d)) := by
  induction h with
  | nil => exact .nil
  | cons hopen hclose _ _ ih => exact (Balanced.of_forall (isParen_written hopen hclose)).append ih
  | enclosed _ _ ihinner ihrest =>
    rw [List.flatMap_cons, List.flatMap_append, List.flatMap_cons]
    exact .enclosed ihinner ihrest

end Fragment

/-- The tokens of an expression. -/
def Expr.written (d : Dialect) (e : Expr) : List Token :=
  e.fragments.flatMap (Fragment.written d)

theorem Expr.textOf_written (d : Dialect) (e : Expr) : textOf (e.written d) = e.sql d :=
  Fragment.textOf_flatMap_written _

theorem Expr.balanced_written (d : Dialect) (e : Expr) : Balanced (e.written d) :=
  e.nested_fragments.balanced_written

end ReportSql
