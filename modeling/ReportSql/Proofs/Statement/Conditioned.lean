import ReportSql.Proofs.Query.Written
import ReportSql.Proofs.Statement.Outline
import ReportSql.Proofs.Statement.Trimming

/-!
# Statements with a condition

A statement with an added condition is printed along its outline: first the tokens
before its condition, then the WHERE clause, in which the author's condition stands
in parentheses of its own, and then the other clauses. Where the printer never comes
to that place, nothing is added at all.

## Main definitions

* `Outline.front`, `Outline.clause`, `Outline.rest` - the printed parts of a statement
* `Statement.Reaches` - the printer comes to the place of the condition

## Main results

* `Outline.Fits.renderUntil` - an outline is printed part by part
* `Statement.renderUntil_missed` - conditions that are not printed
-/

namespace ReportSql

open Token Statement

namespace Outline

variable {d : Dialect} {tablePrefix : String} {o : Outline}

/-! ## Printed parts -/

/-- The printed tokens before the WHERE clause. A new clause at the end gets a line of its own. -/
def front (d : Dialect) (tablePrefix : String) (o : Outline) : List Token :=
  match o.condition?, o.after with
  | none, [] => withLineBreak (trimBack (expand d tablePrefix o.before))
  | _, _ => expand d tablePrefix o.before

/-- The printed tokens of a condition without outer blanks. A comment at its end keeps its line
break. -/
def enclosed (d : Dialect) (tablePrefix : String) (condition : List Token) : List Token :=
  let body := trimmed (expand d tablePrefix condition)
  if (condition.reverse.find? (!·.isBlank)).any isLineComment then withLineBreak body else body

/-- The WHERE clause: a predicate, after the author's condition in parentheses if there is one. -/
def clause (d : Dialect) (tablePrefix : String) (predicate : List Token) (o : Outline) : List Token :=
  match o.condition? with
  | none => .word "WHERE" none :: .blank .space :: predicate
  | some (keyword, condition) =>
    keyword :: .blank .space :: .punctuation .openParen :: (enclosed d tablePrefix condition ++
      .punctuation .closeParen :: .blank .space :: .word "AND" none :: .blank .space :: predicate)

/-- The printed tokens behind the WHERE clause. -/
def rest (d : Dialect) (tablePrefix : String) (o : Outline) : List Token :=
  match o.after with
  | [] => []
  | after => .blank .space :: expand d tablePrefix after

/-- The printed tokens of all parts. -/
def printed (d : Dialect) (tablePrefix : String) (predicate : List Token) (o : Outline) : List Token :=
  o.front d tablePrefix ++ (o.clause d tablePrefix predicate ++ o.rest d tablePrefix)

/-! ## Parentheses -/

theorem parens_tableToken (name : String) : parens [tableToken d name] = [] := by
  obtain ⟨value, quote, hword⟩ := tableToken_eq_word (d := d) name
  rw [hword]
  rfl

theorem parens_placeholderTokens (name : String) : parens (placeholderTokens d name) = [] := by
  unfold placeholderTokens
  split <;> rfl

theorem parens_expand (tokens : List Token) : parens (expand d tablePrefix tokens) = parens tokens := by
  fun_induction expand d tablePrefix tokens with
  | case1 name rest ih =>
    rw [← List.singleton_append, parens_append, parens_tableToken, List.nil_append, ih]
    rfl
  | case2 name rest ih =>
    rw [parens_append, parens_placeholderTokens, List.nil_append, ih]
    rfl
  | case3 t rest _ _ ih =>
    have hcons : ∀ more, parens (t :: more) = parens [t] ++ parens more :=
      fun more => parens_append [t] more
    rw [hcons, hcons rest, ih]
  | case4 => rfl

theorem Proper.balanced_front (h : o.Proper) : Balanced (o.front d tablePrefix) := by
  unfold front
  split
  · exact h.before.congr (by rw [parens_withLineBreak, parens_trimBack, parens_expand])
  · exact h.before.congr (parens_expand _)

theorem balanced_enclosed {condition : List Token} (h : Balanced condition) :
    Balanced (enclosed d tablePrefix condition) := by
  unfold enclosed
  dsimp only
  split
  · exact h.congr (by rw [parens_withLineBreak, parens_trimmed, parens_expand])
  · exact h.congr (by rw [parens_trimmed, parens_expand])

theorem Proper.balanced_rest (h : o.Proper) : Balanced (o.rest d tablePrefix) := by
  unfold rest
  split
  · exact .nil
  · exact .other Token.noConfusion Token.noConfusion (h.after.congr (parens_expand _))

/-! ## Texts -/

theorem textOf_enclosed {condition : List Token} {next : List Token} (h : Whole condition next) :
    enclosedCondition d tablePrefix condition.length (condition ++ next) =
      "(" ++ textOf (enclosed d tablePrefix condition) ++ ")" := by
  unfold enclosedCondition enclosed
  dsimp only
  rw [plainText_whole h, List.take_left]
  split
  · rw [textOf_withLineBreak, textOf_trimmed, String.append_assoc]
    rw [String.append_assoc, String.append_assoc, String.append_assoc]
  · rw [textOf_trimmed, String.append_empty]

theorem textOf_clause (before condition after predicate : List Token) (keyword : Token) :
    textOf (clause d tablePrefix predicate ⟨before, some (keyword, condition), after⟩) =
      keyword.text ++ " " ++ ("(" ++ textOf (enclosed d tablePrefix condition) ++ ")") ++ " AND " ++
        textOf predicate := by
  have hspace : (Token.blank .space).text = " " := rfl
  have hopen : (Token.punctuation .openParen).text = "(" := rfl
  have hclose : (Token.punctuation .closeParen).text = ")" := rfl
  have hand : " AND " = " " ++ ("AND" ++ " ") := rfl
  simp only [clause, textOf_cons, textOf_append, hspace, hopen, hclose, text_word, hand,
    String.append_assoc]

theorem textOf_newClause (before after predicate : List Token) :
    textOf (clause d tablePrefix predicate ⟨before, none, after⟩) = "WHERE " ++ textOf predicate := by
  have hwhere : "WHERE " = "WHERE" ++ " " := rfl
  have hspace : (Token.blank .space).text = " " := rfl
  simp only [clause, textOf_cons, hspace, text_word, hwhere, String.append_assoc]

theorem textOf_rest (o : Outline) : textOf (o.rest d tablePrefix) =
    (if o.after = [] then "" else " ") ++ textOf (expand d tablePrefix o.after) := by
  unfold rest
  split
  · rename_i hafter
    rw [if_pos hafter, hafter, String.empty_append]
    rfl
  · rename_i hafter
    rw [if_neg hafter, textOf_cons]
    rfl

end Outline

namespace Statement

variable {d : Dialect} {tablePrefix text : String} {before condition after next : List Token}
  {keyword : Token} {stop : Nat}

/-! ## Printing along an outline -/

/-- The printer behind the place of its condition. -/
theorem renderFrom_behind {insertion : Insertion} {position : Nat} (h : Whole after next)
    (hquiet : ∀ q, position ≤ q → insertion.actsAt q = false) :
    renderFrom d tablePrefix insertion (position + after.length) position 0 (after ++ next) =
      textOf (expand d tablePrefix after) := by
  rw [renderFrom_quiet fun _ _ _ _ _ => hquiet _ (Nat.le_add_right _ _), Nat.add_sub_cancel_left,
    plainText_whole h]

/-- The printer beside a condition, of which the last piece may reach beyond it. -/
theorem renderFrom_open (hbefore : Whole before (keyword :: (condition ++ (after ++ next))))
    (hafter : Whole after next)
    (hstop : stop = before.length + 1 + condition.length + after.length) :
    renderFrom d tablePrefix (.beside before.length (before.length + 1 + condition.length) text) stop
        0 0 (before ++ keyword :: (condition ++ (after ++ next))) =
      textOf (expand d tablePrefix before) ++ (keyword.text ++ " " ++
        enclosedCondition d tablePrefix condition.length (condition ++ (after ++ next)) ++
          " AND " ++ text ++ (if after = [] then "" else " ") ++
            textOf (expand d tablePrefix after)) := by
  have hmin : min (before.length + 1 + condition.length) stop =
      before.length + 1 + condition.length := by omega
  have hcount : before.length + 1 + condition.length - (before.length + 1) = condition.length := by
    omega
  have hgap : (if before.length + 1 + condition.length < stop then " " else "") =
      if after = [] then "" else " " := by
    rcases after with _ | ⟨t, rest⟩
    · rw [if_neg (by simp [hstop]), if_pos rfl]
    · rw [if_pos (by simp [hstop]), if_neg (List.cons_ne_nil _ _)]
  rw [renderFrom_append hbefore (by omega) fun q hq => by
    simp only [Insertion.actsAt, beq_eq_false_iff_ne]; omega, Nat.zero_add, renderFrom,
    if_neg (by omega)]
  dsimp only
  rw [if_pos rfl, hmin, hcount, hgap, renderFrom_skip, List.drop_left, hstop,
    renderFrom_behind hafter fun q hq => by
      simp only [Insertion.actsAt, beq_eq_false_iff_ne]; omega]

theorem renderFrom_beside (hbefore : Whole before (keyword :: (condition ++ (after ++ next))))
    (hcondition : Whole condition (after ++ next)) (hafter : Whole after next)
    (hstop : stop = before.length + 1 + condition.length + after.length) :
    renderFrom d tablePrefix (.beside before.length (before.length + 1 + condition.length) text) stop
        0 0 (before ++ keyword :: (condition ++ (after ++ next))) =
      textOf (expand d tablePrefix before) ++ (keyword.text ++ " " ++
        ("(" ++ textOf (Outline.enclosed d tablePrefix condition) ++ ")") ++ " AND " ++ text ++
          (if after = [] then "" else " ") ++ textOf (expand d tablePrefix after)) := by
  rw [renderFrom_open hbefore hafter hstop, Outline.textOf_enclosed hcondition]

theorem renderFrom_newCondition (hbefore : Whole before (after ++ next)) (hafter : Whole after next)
    (hstop : stop = before.length + after.length) :
    renderFrom d tablePrefix (.newCondition before.length text) stop 0 0 (before ++ (after ++ next)) =
      textOf (expand d tablePrefix before) ++ ((if after = [] then "" else "WHERE " ++ text ++ " ") ++
        textOf (expand d tablePrefix after)) := by
  rw [renderFrom_append hbefore (by omega) fun q hq => by
    simp only [Insertion.actsAt, beq_eq_false_iff_ne]; omega, Nat.zero_add]
  cases after with
  | nil =>
    rw [hstop, renderFrom_past (by simp), if_pos rfl]
    rfl
  | cons t rest =>
    obtain ⟨w, hw⟩ := @pieceText_width d tablePrefix t (rest ++ next)
    have hplain := @plainText_whole d tablePrefix _ _ hafter
    rw [List.length_cons, List.cons_append, plainText_cons, hw, List.drop_succ_cons,
      Nat.add_sub_add_right] at hplain
    rw [List.length_cons] at hstop
    rw [List.cons_append, renderFrom, if_neg (by omega)]
    dsimp only
    rw [if_pos rfl, if_neg (List.cons_ne_nil _ _), hw, Nat.add_sub_cancel, renderFrom_skip,
      renderFrom_quiet fun _ _ _ _ _ => by
        simp only [Insertion.actsAt, beq_eq_false_iff_ne]; omega,
      show stop - (before.length + 1 + w) = rest.length - w by omega, hplain]

end Statement

namespace Outline

variable {d : Dialect} {tablePrefix : String} {o : Outline} {s : Statement} {stop : Nat}
  {predicate : Expr}

theorem Fits.tokens_append (h : o.Fits s stop) :
    s.tokens = o.before ++ (o.whereTokens ++ (o.after ++ s.tokens.drop stop)) := by
  have htokens := h.tokens_eq
  rw [Outline.tokens] at htokens
  rw [← List.append_assoc o.whereTokens, ← List.append_assoc, htokens, List.take_append_drop]

theorem Fits.stop_eq (h : o.Fits s stop) (hstop : stop ≤ s.tokens.length) :
    stop = o.before.length + o.whereTokens.length + o.after.length := by
  have hlength := congrArg List.length h.tokens_eq
  rw [Outline.tokens, List.length_append, List.length_append, List.length_take,
    min_eq_left hstop] at hlength
  omega

section Rendering

variable {before after : List Token} (hstop : stop ≤ s.tokens.length) (hpredicates : s.predicates = [])
include hstop hpredicates

/-- The WHERE clause that is there takes the condition. -/
private theorem Fits.renderUntil_some {keyword : Token} {condition : List Token}
    (h : (Outline.mk before (some (keyword, condition)) after).Fits s stop) :
    (s.addPredicate predicate).renderUntil tablePrefix stop =
      textOf ((Outline.mk before (some (keyword, condition)) after).printed s.dialect tablePrefix
        (predicate.written s.dialect)) := by
  have hsql : (s.addPredicate predicate).predicateSql? = some (predicate.sql s.dialect) := by
    simp [predicateSql?, addPredicate, hpredicates]
  have hinsertion : (s.addPredicate predicate).insertion =
      .beside before.length (before.length + 1 + condition.length) (predicate.sql s.dialect) := by
    unfold insertion
    rw [hsql, show (s.addPredicate predicate).clauseSpan? .condition = _ from h.span]
  have hlength : stop = before.length + 1 + condition.length + after.length := by
    have hparts : stop = before.length + (condition.length + 1) + after.length := h.stop_eq hstop
    omega
  unfold Statement.renderUntil
  dsimp only
  rw [hinsertion]
  dsimp only [addPredicate]
  rw [show s.tokens = before ++ keyword :: (condition ++ (after ++ s.tokens.drop stop)) from
    h.tokens_append, renderFrom_beside h.before h.condition.tail h.after hlength]
  rw [printed, textOf_append, textOf_append, textOf_clause, predicate.textOf_written, textOf_rest]
  simp only [front, String.append_assoc]

/-- A new WHERE clause stands behind the tables. -/
private theorem Fits.renderUntil_none (h : (Outline.mk before none after).Fits s stop) :
    (s.addPredicate predicate).renderUntil tablePrefix stop =
      textOf ((Outline.mk before none after).printed s.dialect tablePrefix
        (predicate.written s.dialect)) := by
  have hsql : (s.addPredicate predicate).predicateSql? = some (predicate.sql s.dialect) := by
    simp [predicateSql?, addPredicate, hpredicates]
  obtain ⟨hcondition, start, hsource⟩ : s.clauseSpan? .condition = none ∧
    ∃ start, s.clauseSpan? .source = some (start, before.length) := h.span
  have hinsertion : (s.addPredicate predicate).insertion =
      .newCondition before.length (predicate.sql s.dialect) := by
    unfold insertion
    rw [hsql, show (s.addPredicate predicate).clauseSpan? .condition = _ from hcondition,
      show (s.addPredicate predicate).clauseSpan? .source = _ from hsource]
  have hlength : stop = before.length + after.length := h.stop_eq hstop
  have hbefore : Whole before (after ++ s.tokens.drop stop) := h.before
  unfold Statement.renderUntil
  dsimp only
  rw [hinsertion]
  dsimp only [addPredicate]
  rw [show s.tokens = before ++ (after ++ s.tokens.drop stop) from h.tokens_append,
    renderFrom_newCondition hbefore h.after hlength]
  rw [printed, textOf_append, textOf_append, textOf_newClause, predicate.textOf_written, textOf_rest]
  cases after with
  | nil =>
    -- the clause stands at the end, on a line of its own
    have hplace : before.length = stop := hlength.symm
    simp only [front, if_pos hplace, if_true, textOf_withLineBreak, textOf_trimBack]
    have hempty : textOf (expand s.dialect tablePrefix []) = "" := rfl
    have hline : "\nWHERE " = "\n" ++ "WHERE " := rfl
    simp only [hempty, hline, String.append_empty, String.append_assoc]
  | cons t rest =>
    have hplace : before.length ≠ stop := by
      rw [hlength, List.length_cons]
      omega
    simp only [front, if_neg hplace, if_neg (List.cons_ne_nil t rest), String.append_assoc]

/-- A statement with one added condition prints its outline part by part. -/
theorem Fits.renderUntil (h : o.Fits s stop) :
    (s.addPredicate predicate).renderUntil tablePrefix stop =
      textOf (o.printed s.dialect tablePrefix (predicate.written s.dialect)) := by
  obtain ⟨before, condition?, after⟩ := o
  cases condition? with
  | some clause => exact h.renderUntil_some hstop hpredicates
  | none => exact h.renderUntil_none hstop hpredicates

end Rendering

end Outline

namespace Statement

variable {s : Statement} {stop : Nat} {predicate : Expr} {tablePrefix : String}

/-! ## A condition that is not printed -/

/-- The printer comes to the place of an added condition before it stops. -/
def Reaches (s : Statement) (stop : Nat) : Prop :=
  match s.clauseSpan? .condition, s.clauseSpan? .source with
  | some (start, _), _ => start < stop ∧ Whole (s.tokens.take start) (s.tokens.drop start)
  | none, some (_, place) =>
    place = stop ∨ place < stop ∧ Whole (s.tokens.take place) (s.tokens.drop place)
  | none, none => False

instance : Decidable (s.Reaches stop) := by
  unfold Reaches
  split <;> infer_instance

theorem renderFrom_missed {insertion : Insertion} {place : Nat}
    (hplace : ∀ q, insertion.actsAt q = true → q = place)
    (hmissed : ¬ (place < stop ∧ Whole (s.tokens.take place) (s.tokens.drop place))) :
    renderFrom s.dialect tablePrefix insertion stop 0 0 s.tokens =
      renderFrom s.dialect tablePrefix .nowhere stop 0 0 s.tokens := by
  have hquiet : renderFrom s.dialect tablePrefix .nowhere stop 0 0 s.tokens =
      plainText s.dialect tablePrefix (stop - 0) 0 s.tokens :=
    renderFrom_quiet fun _ _ _ _ _ => rfl
  rw [hquiet, renderFrom_quiet]
  intro first next htokens hwhole hlt
  rw [Nat.zero_add] at hlt ⊢
  by_contra hacts
  obtain rfl := hplace _ (Bool.not_eq_false _ ▸ hacts)
  refine hmissed ⟨hlt, ?_⟩
  rw [htokens, List.take_left, List.drop_left]
  exact hwhole

/-- Where the printer does not come to their place, added conditions leave no trace. -/
theorem renderUntil_missed (hpredicates : s.predicates = []) (h : ¬ s.Reaches stop)
    (predicates : List Expr) :
    Statement.renderUntil { s with predicates } tablePrefix stop = s.renderUntil tablePrefix stop := by
  have hspan : ∀ kind, clauseSpan? { s with predicates } kind = s.clauseSpan? kind := fun _ => rfl
  have hnone : s.insertion = .nowhere := by
    unfold insertion predicateSql?
    rw [hpredicates]
  unfold renderUntil
  rw [hnone]
  unfold insertion
  rw [hspan, hspan]
  unfold Reaches at h
  cases predicateSql? { s with predicates } with
  | none => rfl
  | some predicate =>
    cases hcondition : s.clauseSpan? .condition with
    | some span =>
      obtain ⟨start, conditionStop⟩ := span
      rw [hcondition] at h
      exact renderFrom_missed (fun q hq => (beq_iff_eq.1 hq).symm) h
    | none =>
      cases hsource : s.clauseSpan? .source with
      | none => rfl
      | some span =>
        obtain ⟨start, place⟩ := span
        rw [hcondition, hsource] at h
        obtain ⟨hne, hmissed⟩ := not_or.1 h
        dsimp only
        rw [if_neg hne]
        exact renderFrom_missed (fun q hq => (beq_iff_eq.1 hq).symm) hmissed

theorem renderUntil_of_not_reaches (hpredicates : s.predicates = []) (h : ¬ s.Reaches stop) :
    (s.addPredicate predicate).renderUntil tablePrefix stop = s.renderUntil tablePrefix stop :=
  renderUntil_missed hpredicates h _

end Statement

end ReportSql
