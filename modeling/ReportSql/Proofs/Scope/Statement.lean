import ReportSql.Proofs.Scope.Injection
import ReportSql.Proofs.Statement.Conditioned
import ReportSql.Proofs.Validation.Keywords

/-!
# Scoped statements

An author statement that a scope was added to is printed three times: alone, to count
its rows, and for one page. Where its clauses are in order and none of their words is
a name, the scope stands in the WHERE clause of the outermost SELECT in all three
texts. Where the printer never comes to that place, the scope is missing.

## Main definitions

* `Outline.framed` - the printed parts of a statement with tokens around them
* `Statement.Shows` - a text with a predicate in its WHERE clause

## Main results

* `Validator.injectStatement_scoped` - where the texts of a scoped statement have its scope
-/

namespace ReportSql

open Token Statement

/-! ## Texts around a statement -/

namespace Outline

variable {d : Dialect} {tablePrefix : String} {o : Outline} {predicate : List Token}

/-- The printed parts between other tokens, without the blanks at their end. -/
def framed (opening closing : List Token) (d : Dialect) (tablePrefix : String) (predicate : List Token)
    (o : Outline) : List Token :=
  opening ++ (o.front d tablePrefix ++ (o.clause d tablePrefix predicate ++
    (withLineBreak (trimBack (o.rest d tablePrefix)) ++ closing)))

/-- A predicate that ends with a visible character. -/
def EndsVisibly (predicate : List Token) : Prop :=
  ∃ first last, charsOf predicate = first ++ [last] ∧ Text.isBlank last = false

theorem clause_eq (o : Outline) : ∃ first, o.clause d tablePrefix predicate = first ++ predicate := by
  unfold clause
  split
  · exact ⟨[_, _], rfl⟩
  · rename_i keyword condition _
    exact ⟨keyword :: .blank .space :: .punctuation .openParen :: (enclosed d tablePrefix condition ++
      [.punctuation .closeParen, .blank .space, .word "AND" none, .blank .space]), by simp⟩

theorem trimEnd_printed (h : EndsVisibly predicate) (o : Outline) :
    Text.trimEnd (textOf (o.printed d tablePrefix predicate)) =
      textOf (o.front d tablePrefix ++ (o.clause d tablePrefix predicate ++
        trimBack (o.rest d tablePrefix))) := by
  obtain ⟨clauseFirst, hclause⟩ := @clause_eq d tablePrefix predicate o
  obtain ⟨first, last, hchars, hlast⟩ := h
  apply String.toList_injective
  -- nothing is dropped up to the end of the predicate
  have hkept : ∀ cs, Text.dropTrailingBlanks (cs ++ charsOf predicate) = cs ++ charsOf predicate := by
    intro cs
    rw [hchars, ← List.append_assoc]
    unfold Text.dropTrailingBlanks
    rw [List.reverse_concat, List.dropWhile_cons, hlast, if_neg Bool.false_ne_true,
      List.reverse_cons, List.reverse_reverse]
  rw [Text.trimEnd, String.toList_ofList, toList_textOf, toList_textOf, printed]
  simp only [charsOf_append, hclause, charsOf_trimBack]
  rw [← List.append_assoc, ← List.append_assoc, Token.dropTrailingBlanks_append,
    ← List.append_assoc, ← List.append_assoc, hkept]
  split
  · rename_i hblank
    rw [hblank, List.append_nil]
  · rfl

theorem textOf_framed (h : EndsVisibly predicate) (opening closing : List Token) (o : Outline) :
    textOf (o.framed opening closing d tablePrefix predicate) =
      textOf opening ++ (Text.trimEnd (textOf (o.printed d tablePrefix predicate)) ++
        ("\n" ++ textOf closing)) := by
  rw [trimEnd_printed h, framed]
  simp only [textOf_append, textOf_withLineBreak, String.append_assoc]

end Outline

namespace Statement

/-- Where the statement that counts the rows stops. -/
def countEnd (s : Statement) : Nat :=
  match s.clause? .orderBy, s.hasClause .limit with
  | some orderBy, false => orderBy.start
  | _, _ => s.tokens.length

theorem countSql_eq (s : Statement) (tablePrefix : String) : s.countSql tablePrefix =
    "SELECT COUNT(*) AS " ++ Query.countColumn ++ " FROM (\n" ++
      Text.trimEnd (s.renderUntil tablePrefix s.countEnd) ++ "\n) AS " ++ Query.countTable := by
  unfold countSql countEnd
  cases s.clause? .orderBy with
  | none => rfl
  | some orderBy => cases s.hasClause .limit <;> rfl

/-- The tokens before a statement whose rows are counted. -/
def countHead : List Token :=
  [.word "SELECT" none, .blank .space, .word "COUNT" none, .punctuation .openParen, .operator "*",
    .punctuation .closeParen, .blank .space, .word "AS" none, .blank .space, .word "total" none,
    .blank .space, .word "FROM" none, .blank .space, .punctuation .openParen, .blank .newline]

/-- The tokens after a statement whose rows are counted. -/
def countTail : List Token :=
  [.punctuation .closeParen, .blank .space, .word "AS" none, .blank .space, .word "report_total" none]

/-- The tokens before a statement of which a page is taken. -/
def pageHead (s : Statement) : List Token :=
  if s.hasClause .limit then
    [.word "SELECT" none, .blank .space, .operator "*", .blank .space, .word "FROM" none,
      .blank .space, .punctuation .openParen, .blank .newline]
  else []

/-- The order by a constant. -/
def orderTokens : List Token :=
  [.word "ORDER" none, .blank .space, .word "BY" none, .blank .space, .punctuation .openParen,
    .word "SELECT" none, .blank .space, .word "NULL" none, .punctuation .closeParen, .blank .newline]

/-- The tokens after a statement of which a page is taken. -/
def pageTail (s : Statement) (page pageSize : UInt64) : List Token :=
  let window := Query.pageWindow page pageSize
  let paging := (Fragment.paging s.dialect window.limit window.offset).flatMap (·.written s.dialect)
  if s.hasClause .limit then
    [.punctuation .closeParen, .blank .space, .word "AS" none, .blank .space,
      .word "report_page" none, .blank .newline] ++
      ((if s.dialect.needsOrderForPaging then orderTokens else []) ++ paging)
  else
    (if s.tokens.getLast?.any isLineComment then [.blank .newline] else []) ++
      ((if s.dialect.needsOrderForPaging && !s.hasClause .orderBy then orderTokens else []) ++ paging)

/-- The statement that counts the rows has tokens of its own around the statement. -/
theorem countSql_eq_textOf (s : Statement) (tablePrefix : String) : s.countSql tablePrefix =
    textOf countHead ++ (Text.trimEnd (s.renderUntil tablePrefix s.countEnd) ++
      ("\n" ++ textOf countTail)) := by
  have hopening : textOf countHead = "SELECT COUNT(*) AS " ++ Query.countColumn ++ " FROM (\n" := by
    decide
  have hclosing : "\n" ++ textOf countTail = "\n) AS " ++ Query.countTable := by
    decide
  rw [countSql_eq, hopening, hclosing]
  simp only [String.append_assoc]

/-- So has the statement for one page. -/
theorem pagedSql_eq_textOf (s : Statement) (tablePrefix : String) (page pageSize : UInt64) :
    s.pagedSql tablePrefix page pageSize =
      textOf s.pageHead ++ (Text.trimEnd (s.render tablePrefix) ++
        ("\n" ++ textOf (s.pageTail page pageSize))) := by
  have hplain : textOf [] = "" := rfl
  have hbreak : textOf [.blank .newline] = "\n" := rfl
  have horder : Statement.constantOrder = "\n" ++ "ORDER BY (SELECT NULL)" := rfl
  have horderTokens : textOf orderTokens = "ORDER BY (SELECT NULL)" ++ "\n" := by decide
  rw [pageHead, pageTail]
  unfold Statement.pagedSql
  dsimp only
  -- a statement with a LIMIT is wrapped, and the page is cut from its rows
  cases s.hasClause .limit with
  | true =>
    have hopening : textOf [.word "SELECT" none, .blank .space, .operator "*", .blank .space,
        .word "FROM" none, .blank .space, .punctuation .openParen, .blank .newline] =
          "SELECT * FROM (\n" := by decide
    have hclosing : textOf [.punctuation .closeParen, .blank .space, .word "AS" none,
        .blank .space, .word "report_page" none, .blank .newline] = ") AS report_page" ++ "\n" := by
      decide
    have hline : "\n) AS report_page" = "\n" ++ ") AS report_page" := rfl
    rw [if_pos rfl, if_pos rfl, if_pos rfl, hopening, textOf_append, textOf_append, hclosing, hline,
      Fragment.textOf_flatMap_written]
    split <;>
      simp only [horder, horderTokens, hplain, String.append_assoc, String.append_empty,
        String.empty_append]
  | false =>
    rw [if_neg Bool.false_ne_true, if_neg Bool.false_ne_true, if_neg Bool.false_ne_true,
      textOf_append, textOf_append, Fragment.textOf_flatMap_written]
    split <;> split <;>
      simp only [horder, horderTokens, hplain, hbreak, String.append_assoc, String.append_empty,
        String.empty_append]

end Statement

namespace Outline

variable {o : Outline} {s : Statement} {predicate : Expr} {tablePrefix : String}

theorem Fits.countSql (h : o.Fits s s.countEnd) (hend : s.countEnd ≤ s.tokens.length)
    (hpredicates : s.predicates = []) (hvisible : EndsVisibly (predicate.written s.dialect)) :
    (s.addPredicate predicate).countSql tablePrefix =
      textOf (o.framed countHead countTail s.dialect tablePrefix
        (predicate.written s.dialect)) := by
  have hstop : (s.addPredicate predicate).countEnd = s.countEnd := rfl
  rw [countSql_eq_textOf, hstop, h.renderUntil hend hpredicates, textOf_framed hvisible]

theorem Fits.pagedSql (h : o.Fits s s.tokens.length)
    (hpredicates : s.predicates = []) (hvisible : EndsVisibly (predicate.written s.dialect))
    (page pageSize : UInt64) :
    (s.addPredicate predicate).pagedSql tablePrefix page pageSize =
      textOf (o.framed s.pageHead (s.pageTail page pageSize) s.dialect tablePrefix
        (predicate.written s.dialect)) := by
  have hrender : (s.addPredicate predicate).render tablePrefix =
      textOf (o.printed s.dialect tablePrefix (predicate.written s.dialect)) :=
    h.renderUntil le_rfl hpredicates
  rw [pagedSql_eq_textOf, hrender, textOf_framed hvisible]
  rfl

/-- A text that prints an outline part by part; the parentheses of each part match. -/
structure Shows (o : Outline) (d : Dialect) (tablePrefix : String) (predicate tokens : List Token)
    (text : String) : Prop where
  proper : o.Proper
  front : Balanced (o.front d tablePrefix)
  enclosed : ∀ keyword condition, o.condition? = some (keyword, condition) →
    Balanced (enclosed d tablePrefix condition)
  predicate : Balanced predicate
  rest : Balanced (o.rest d tablePrefix)
  text_eq : text = textOf tokens
  reads : tokenize d text = .ok tokens ↔ Separated d tokens

theorem Proper.shows (h : o.Proper) {d : Dialect} {tokens : List Token} {text : String}
    (htext : text = textOf tokens) : o.Shows d tablePrefix (predicate.written d) tokens text where
  proper := h
  front := h.balanced_front
  enclosed _ _ hcondition := balanced_enclosed (h.condition _ _ hcondition).2.2
  predicate := predicate.balanced_written d
  rest := h.balanced_rest
  text_eq := htext
  reads := by rw [htext]; exact tokenize_textOf_iff_separated

end Outline

/-! ## Scoped statements -/

namespace Injector

theorem endsVisibly_predicate (i : Injector) (units : UnitSet) (d : Dialect) :
    Outline.EndsVisibly ((i.predicate units).1.written d) := by
  have hlast : ∀ {fragments : List Fragment} {f : Fragment} {c : Char},
      charsOf (f.written d) = [c] → Text.isBlank c = false →
        Outline.EndsVisibly ((fragments ++ [f]).flatMap (Fragment.written d)) := by
    intro fragments f c hchars hc
    refine ⟨charsOf (fragments.flatMap (Fragment.written d)), c, ?_, hc⟩
    rw [List.flatMap_append, charsOf_append, List.flatMap_singleton, hchars]
  unfold predicate
  split
  · exact hlast (f := .integer 0) (by cbv) (by decide)
  · unfold Expr.written
    dsimp only
    rw [Expr.fragments]
    exact hlast (f := .closeParen) (by cbv) (by decide)

end Injector

namespace Statement

variable {s : Statement}

theorem countEnd_cases (s : Statement) : s.countEnd = s.tokens.length ∨
    ∃ c ∈ s.clauses, ClauseKind.condition.rank < c.kind.rank ∧ c.start = s.countEnd := by
  unfold countEnd
  cases horder : s.clause? .orderBy with
  | none => exact .inl rfl
  | some orderBy =>
    cases s.hasClause .limit with
    | true => exact .inl rfl
    | false =>
      have hkind : orderBy.kind = .orderBy := by simpa using List.find?_some horder
      exact .inr ⟨orderBy, List.mem_of_find?_eq_some horder, by rw [hkind]; decide, rfl⟩

end Statement

namespace Validator

variable {v : Validator} {sql tablePrefix : String} {s restricted : Statement} {i : Injector}
  {units : UnitSet} {params bound : Params}

/-- The texts of a scoped statement. Where its clauses are in order and none of their words is a name,
all three texts have the scope as the WHERE clause of the outermost SELECT, beside the author's
condition in parentheses. Where the printer does not come to its place, a text is the one without
a scope. -/
theorem injectStatement_scoped (hvalid : v.validate sql = .ok s)
    (hinject : i.injectStatement (.units units) s params = .ok (restricted, bound))
    (tablePrefix : String) (page pageSize : UInt64) :
    (s.Orderly →
      (∃ o : Outline, o.tokens = s.tokens ∧
        o.Shows v.dialect tablePrefix ((i.predicate units).1.written v.dialect)
          (o.printed v.dialect tablePrefix ((i.predicate units).1.written v.dialect))
          (restricted.render tablePrefix)) ∧
      (∃ o : Outline, o.tokens = s.tokens.take s.countEnd ∧
        o.Shows v.dialect tablePrefix ((i.predicate units).1.written v.dialect)
          (o.framed countHead countTail v.dialect tablePrefix
            ((i.predicate units).1.written v.dialect))
          (restricted.countSql tablePrefix)) ∧
      ∃ o : Outline, o.tokens = s.tokens ∧
        o.Shows v.dialect tablePrefix ((i.predicate units).1.written v.dialect)
          (o.framed s.pageHead (s.pageTail page pageSize) v.dialect tablePrefix
            ((i.predicate units).1.written v.dialect))
          (restricted.pagedSql tablePrefix page pageSize)) ∧
    (¬ s.Reaches s.tokens.length → restricted.render tablePrefix = s.render tablePrefix ∧
      restricted.pagedSql tablePrefix page pageSize = s.pagedSql tablePrefix page pageSize) ∧
    (¬ s.Reaches s.countEnd → restricted.countSql tablePrefix = s.countSql tablePrefix) := by
  obtain ⟨-, hparse, -⟩ := validate_eq_ok hvalid
  obtain ⟨hdialect, hpredicates, -⟩ := Statement.parse_eq_ok hparse
  have hselect := validate_select hvalid
  obtain ⟨hnone, -⟩ | ⟨_, hunits, -, rfl, -⟩ := Injector.injectStatement_eq_ok hinject
  · exact Restriction.noConfusion hnone
  obtain rfl := Restriction.units.inj hunits
  -- the condition ends in a character that trimming keeps
  have hvisible := i.endsVisibly_predicate units v.dialect
  rw [← hdialect] at hvisible ⊢
  refine ⟨fun ho => ?_, fun h => ?_, fun h => ?_⟩
  · obtain ⟨o, hfits, hproper⟩ := ho.exists_outline hparse hselect (.inl rfl)
    have htokens : o.tokens = s.tokens := by
      rw [hfits.tokens_eq, List.take_length]
    obtain ⟨counted, hcounted, hcountedProper⟩ :=
      ho.exists_outline hparse hselect s.countEnd_cases
    have hend : s.countEnd ≤ s.tokens.length := by
      rcases s.countEnd_cases with h | ⟨c, hc, -, h⟩
      · exact h.le
      · rw [← h]
        exact (ho.cuts hparse hc).1.inside
    exact ⟨⟨o, htokens, hproper.shows (hfits.renderUntil le_rfl hpredicates)⟩,
      ⟨counted, hcounted.tokens_eq, hcountedProper.shows (hcounted.countSql hend hpredicates hvisible)⟩,
      ⟨o, htokens, hproper.shows (hfits.pagedSql hpredicates hvisible page pageSize)⟩⟩
  · have hrender : (s.addPredicate (i.predicate units).1).render tablePrefix = s.render tablePrefix :=
      renderUntil_of_not_reaches hpredicates h
    refine ⟨hrender, ?_⟩
    unfold Statement.pagedSql
    rw [hrender]
    rfl
  · have hstop : (s.addPredicate (i.predicate units).1).countEnd = s.countEnd := rfl
    rw [countSql_eq, countSql_eq, hstop, renderUntil_of_not_reaches hpredicates h]

theorem injectStatement_scoped_ordered : ∃ s restricted bound,
    (Validator.mk Whitelist.builtin .sqlite "").validate
      "SELECT u.id FROM \x7buser\x7d u WHERE u.city = 'x' OR u.id = :id -- both\nORDER BY u.id" = .ok s ∧
    Compiler.plainInjector.injectStatement (.units (UnitSet.ofList [4, 2])) s NameMap.empty =
      .ok (restricted, bound) ∧
    ∃ o : Outline, o.tokens = s.tokens ∧
      o.Shows .sqlite "" ((Compiler.plainInjector.predicate (UnitSet.ofList [4, 2])).1.written .sqlite)
        (o.framed s.pageHead (s.pageTail 0 10) .sqlite ""
          ((Compiler.plainInjector.predicate (UnitSet.ofList [4, 2])).1.written .sqlite))
        (restricted.pagedSql "" 0 10) := by
  obtain ⟨s, hvalid, ho, result, hinject⟩ : ∃ s, (Validator.mk Whitelist.builtin .sqlite "").validate
      "SELECT u.id FROM \x7buser\x7d u WHERE u.city = 'x' OR u.id = :id -- both\nORDER BY u.id" = .ok s ∧
      s.Orderly ∧ ∃ result, Compiler.plainInjector.injectStatement (.units (UnitSet.ofList [4, 2])) s
        NameMap.empty = .ok result := by
    decide +kernel
  have hshows := (injectStatement_scoped hvalid hinject "" 0 10).1 ho
  exact ⟨s, result.1, result.2, hvalid, hinject, hshows.2.2⟩

/-- A placeholder named like a keyword hides the place of the scope. -/
theorem injectStatement_scoped_hidden : ∃ s restricted bound,
    (Validator.mk Whitelist.builtin .sqlite "").validate
      "SELECT u.id, :where AS x FROM \x7buser\x7d u" = .ok s ∧
    Compiler.plainInjector.injectStatement (.units (UnitSet.ofList [5])) s NameMap.empty =
      .ok (restricted, bound) ∧
    restricted.render "" = "SELECT u.id, :where AS x FROM \"user\" u" ∧
    restricted.pagedSql "" 0 10 = "SELECT u.id, :where AS x FROM \"user\" u\nLIMIT 10 OFFSET 0" := by
  obtain ⟨s, hvalid, result, hinject, htexts⟩ : ∃ s,
      (Validator.mk Whitelist.builtin .sqlite "").validate
        "SELECT u.id, :where AS x FROM \x7buser\x7d u" = .ok s ∧
      ∃ result, Compiler.plainInjector.injectStatement (.units (UnitSet.ofList [5])) s NameMap.empty =
          .ok result ∧
        result.1.render "" = "SELECT u.id, :where AS x FROM \"user\" u" ∧
        result.1.pagedSql "" 0 10 = "SELECT u.id, :where AS x FROM \"user\" u\nLIMIT 10 OFFSET 0" := by
    decide +kernel
  exact ⟨s, result.1, result.2, hvalid, hinject, htexts⟩

end Validator

end ReportSql
