import ReportSql.Proofs.Sqlite.Legible
import ReportSql.Proofs.Sqlite.Queries
import ReportSql.Proofs.Scope.Statement

/-!
# Author statements read by the database

A legible statement stays one with an added condition, wherever the printer puts it: the
database reads each of its three texts as the printed tokens, and its parameters are the
placeholders of the author and of the condition.

## Main definitions

* `Statement.PrintsFrom` - the printer gives tokens that stand for the ones from a position on
* `Statement.Reads` - a text that the database reads as tokens with placeholders of two kinds

## Main results

* `Statement.printsFrom_of_legible` - what the printer gives for legible tokens
* `Statement.reads_renderUntil`, `Statement.reads_countSql`, `Statement.reads_pagedSql`
-/

namespace ReportSql

open Token Statement

namespace Statement

variable {tablePrefix : String} {tokens first next : List Token} {s : Statement}

/-! ## The printer -/

/-- Tame tokens that can stand for the printed ones of some tokens, with the placeholders of those tokens
and of a condition. -/
structure StandsFor (tablePrefix : String) (condition tokens printed : List Token) : Prop where
  tame : Tame none printed
  names : ∀ name ∈ placeholdersIn printed, name ∈ placeholdersIn tokens ∨ name ∈ placeholdersIn condition
  joint : GivesWay (headOr (expand .sqlite tablePrefix tokens) none) (headOr printed none)

namespace StandsFor

variable {condition printed : List Token}

theorem nil : StandsFor tablePrefix condition tokens [] :=
  ⟨.nil, fun _ h => absurd h List.not_mem_nil, .nothing _⟩

/-- A whole piece before tokens. -/
theorem piece (h : StandsFor tablePrefix condition next printed)
    (hlegible : Legible tablePrefix (first ++ next)) (hwhole : Whole first next) (hne : first ≠ []) :
    StandsFor tablePrefix condition (first ++ next) (expand .sqlite tablePrefix first ++ printed) := by
  have htame := hlegible.tame_whole hwhole
  have hkept := htame.givesWay h.joint
  refine ⟨hkept.append h.tame, fun name hname => ?_, ?_⟩
  · rw [hkept.placeholdersIn_append, List.mem_append] at hname
    rcases hname with hname | hname
    · exact .inl ((hlegible.expand_whole hwhole).2 name hname)
    · exact (h.names name hname).imp_left fun hname => placeholdersIn_subset_append first next hname
  · have hsome : expand .sqlite tablePrefix first ≠ [] := by
      fun_cases expand .sqlite tablePrefix first with
      | case1 | case2 | case3 => exact List.cons_ne_nil _ _
      | case4 => exact absurd rfl hne
    rw [expand_append hwhole, headOr_append, headOr_append, htame.headOr_eq hsome (headOr printed none)]
    exact .same _

/-- A new clause before a word. -/
theorem newClause {value : String} (h : StandsFor tablePrefix condition (.word value none :: tokens) printed)
    (hlegible : Legible tablePrefix (.word value none :: tokens))
    (hcondition : ∀ next, Soft next → Tame next condition) :
    StandsFor tablePrefix condition (.word value none :: tokens)
      (.word "WHERE" none :: .blank .space :: (condition ++ .blank .space :: printed)) := by
  obtain ⟨-, c, hhead, hc⟩ := hlegible.word
  have hinner : Tame (headOr (.blank .space :: printed) none) condition :=
    hcondition (some ' ') (soft_of_mem (by decide))
  have hwhere : Tame (some ' ') [.word "WHERE" none] := tame_word (by decide) (by decide) (by decide)
  refine ⟨hwhere.before rfl (.token rfl (hinner.append (.token rfl h.tame))), fun name hname => ?_, ?_⟩
  · rw [placeholdersIn_cons Token.noConfusion, placeholdersIn_cons Token.noConfusion,
      hinner.placeholdersIn_append, placeholdersIn_cons Token.noConfusion, List.mem_append] at hname
    exact hname.elim .inr (h.names name)
  · rw [hhead]
    exact .word hc (by decide)

/-- A condition beside the author's one, and what stands behind both. -/
theorem beside {value : String} {body tail : List Token}
    (hlegible : Legible tablePrefix (.word value none :: tokens))
    (hcondition : ∀ next, Soft next → Tame next condition) (hbody : Tame (some ')') body)
    (hbodyNames : ∀ name ∈ placeholdersIn body, name ∈ placeholdersIn tokens) (htail : Tame none tail)
    (hsoft : Soft (headOr tail none))
    (htailNames : ∀ name ∈ placeholdersIn tail,
      name ∈ placeholdersIn tokens ∨ name ∈ placeholdersIn condition) :
    StandsFor tablePrefix condition (.word value none :: tokens)
      (.word value none :: .blank .space :: .punctuation .openParen :: (body ++ .punctuation .closeParen ::
        .blank .space :: .word "AND" none :: .blank .space :: (condition ++ tail))) := by
  obtain ⟨hvalue, c, hhead, hc⟩ := hlegible.word
  have hinner := hcondition _ hsoft
  have hand : Tame (some ' ') [.word "AND" none] := tame_word (by decide) (by decide) (by decide)
  have hword : Tame (some ' ') [.word value none] := tame_word hvalue (by decide) (by decide)
  have hclose : Tame none (.punctuation .closeParen :: .blank .space :: .word "AND" none ::
      .blank .space :: (condition ++ tail)) :=
    .token (fits_punctuation (by decide) _) (.token rfl (hand.before rfl (.token rfl (hinner.append htail))))
  refine ⟨hword.before rfl (.token rfl (.token (fits_punctuation (by decide) _) (hbody.before rfl hclose))),
    fun name hname => ?_, ?_⟩
  · rw [placeholdersIn_cons Token.noConfusion, placeholdersIn_cons Token.noConfusion,
      placeholdersIn_cons (by simp), hbody.placeholdersIn_append, placeholdersIn_cons (by simp),
      placeholdersIn_cons Token.noConfusion, placeholdersIn_cons Token.noConfusion,
      placeholdersIn_cons Token.noConfusion, hinner.placeholdersIn_append, List.mem_append,
      List.mem_append] at hname
    rw [placeholdersIn_cons Token.noConfusion]
    exact hname.elim (fun h => .inl (hbodyNames name h)) fun h => h.elim .inr (htailNames name)
  · have hsame : ∀ rest, headOr (.word value none :: rest) none = some c := by
      intro rest
      rw [expand_word, headOr_cons, chars_word] at hhead
      rw [headOr_cons, chars_word]
      cases hchars : value.toList with
      | nil => simp [hchars, Sqlite.isBareWord] at hvalue
      | cons d more =>
        rw [hchars] at hhead
        exact hhead
    rw [hhead, hsame]
    exact .same _

end StandsFor

/-- The condition that is added. -/
def Insertion.Adds (condition : List Token) : Insertion → Prop
  | .nowhere => True
  | .newCondition _ text | .beside _ _ text => text = textOf condition

theorem pieceText_whole {t : Token} {rest : List Token} (htokens : t :: rest = first ++ next)
    (hwhole : Whole first next) (hwidth : (pieceText .sqlite tablePrefix t rest).2 = first.length)
    (hne : first ≠ []) :
    (pieceText .sqlite tablePrefix t rest).1 = textOf (expand .sqlite tablePrefix first) := by
  obtain ⟨n, hn⟩ := Nat.exists_eq_succ_of_ne_zero (List.length_pos_iff.2 hne).ne'
  have htext := @plainText_whole .sqlite tablePrefix _ _ hwhole
  rw [← htokens, hn, plainText_cons, hwidth, hn, Nat.sub_self, plainText_zero, String.append_empty] at htext
  exact htext

/-- What the printer gives from a position on stands for the tokens there. -/
def PrintsFrom (tablePrefix : String) (condition : List Token) (insertion : Insertion)
    (stop position : Nat) (tokens : List Token) : Prop :=
  ∃ printed, renderFrom .sqlite tablePrefix insertion stop position 0 tokens = textOf printed ∧
    StandsFor tablePrefix condition tokens printed

namespace PrintsFrom

variable {condition rest : List Token} {insertion : Insertion} {stop position : Nat}
  {value : String}

theorem past (h : stop ≤ position) : PrintsFrom tablePrefix condition insertion stop position tokens :=
  ⟨[], renderFrom_past h _ _, .nil⟩

/-- A piece at which nothing is added. -/
theorem piece {t : Token} (hlegible : Legible tablePrefix (t :: rest)) (hposition : position < stop)
    (hacts : insertion.actsAt position = false)
    (hlater : ∀ first next, t :: rest = first ++ next → first ≠ [] →
      PrintsFrom tablePrefix condition insertion stop (position + first.length) next) :
    PrintsFrom tablePrefix condition insertion stop position (t :: rest) := by
  obtain ⟨piece, next, htokens, hwhole, hne, hwidth, -⟩ := exists_piece .sqlite tablePrefix t rest
  obtain ⟨printed, htext, hstands⟩ := hlater piece next htokens hne
  refine ⟨expand .sqlite tablePrefix piece ++ printed, ?_, ?_⟩
  · rw [renderFrom_cons hposition hacts, hwidth, pieceText_whole htokens hwhole hwidth hne,
      textOf_append, ← htext]
    congr 2
    rw [htokens, List.drop_left]
  · rw [htokens] at hlegible ⊢
    exact hstands.piece hlegible hwhole hne

/-- A word before which a condition is added. -/
theorem newClause (hlegible : Legible tablePrefix (.word value none :: rest))
    (hcondition : ∀ next, Soft next → Tame next condition) (hposition : position < stop)
    (hlater : PrintsFrom tablePrefix condition (.newCondition position (textOf condition)) stop
      (position + 1) rest) :
    PrintsFrom tablePrefix condition (.newCondition position (textOf condition)) stop position
      (.word value none :: rest) := by
  have hword : Whole [.word value none] rest := (whole_single ⟨rfl, rfl⟩).2 trivial
  obtain ⟨printed, hrest, hstands⟩ := hlater
  have hplain := hstands.piece hlegible hword (List.cons_ne_nil _ _)
  refine ⟨_, ?_, hplain.newClause hlegible hcondition⟩
  rw [renderFrom, if_neg (Nat.not_le.2 hposition)]
  dsimp only
  rw [if_pos rfl, pieceText_single ⟨rfl, rfl⟩]
  have hwhere : "WHERE " = "WHERE" ++ " " := rfl
  have hspace : (Token.blank .space).text = " " := rfl
  have hnone : textOf (expand .sqlite tablePrefix []) = "" := rfl
  simp only [Nat.sub_self, hrest, textOf_cons, textOf_append, expand_word, text_word, hwhere, hspace,
    hnone, String.append_assoc, String.append_empty]

/-- What the printer gives behind two conditions: a blank and the tokens there, or nothing. -/
theorem exists_behind {count : Nat} (place : Nat)
    (hlater : place < stop → PrintsFrom tablePrefix condition insertion stop (position + count)
      (rest.drop count)) (hpast : ¬ place < stop → stop ≤ position + count) :
    ∃ tail, (if place < stop then " " else "") ++
        renderFrom .sqlite tablePrefix insertion stop position count rest = textOf tail ∧
      Tame none tail ∧ Soft (headOr tail none) ∧ ∀ name ∈ placeholdersIn tail,
        name ∈ placeholdersIn rest ∨ name ∈ placeholdersIn condition := by
  rw [renderFrom_skip]
  split
  · rename_i hplace
    obtain ⟨printed, htext, hstands⟩ := hlater hplace
    refine ⟨.blank .space :: printed, ?_, .token rfl hstands.tame, soft_of_mem (c := ' ') (by decide),
      fun name hname => ?_⟩
    · rw [htext, textOf_cons]
      rfl
    · rw [placeholdersIn_cons Token.noConfusion] at hname
      refine (hstands.names name hname).imp_left fun hname => ?_
      rw [← List.take_append_drop count rest]
      exact placeholdersIn_subset_append _ _ hname
  · rename_i hplace
    rw [renderFrom_past (hpast hplace)]
    exact ⟨[], rfl, .nil, soft_none, fun _ h => absurd h List.not_mem_nil⟩

/-- The word before a condition beside which another one is added. -/
theorem beside {conditionStop : Nat} (hlegible : Legible tablePrefix (.word value none :: rest))
    (hcondition : ∀ next, Soft next → Tame next condition) (hposition : position < stop)
    (hstop : stop ≤ position + (rest.length + 1))
    (hlater : min conditionStop stop < stop →
      PrintsFrom tablePrefix condition (.beside position conditionStop (textOf condition)) stop
        (position + 1 + (min conditionStop stop - (position + 1)))
        (rest.drop (min conditionStop stop - (position + 1)))) :
    PrintsFrom tablePrefix condition (.beside position conditionStop (textOf condition)) stop position
      (.word value none :: rest) := by
  have hcount : min conditionStop stop - (position + 1) ≤ rest.length := by omega
  obtain ⟨body, hbody, htame, hbodyNames⟩ :=
    (@Legible.of_append _ [_] _ hlegible).exists_enclosed hcount
  obtain ⟨tail, htail, htailTame, hsoft, htailNames⟩ :=
    exists_behind _ hlater fun _ => by omega
  refine ⟨_, ?_, .beside hlegible hcondition htame hbodyNames htailTame hsoft htailNames⟩
  rw [renderFrom, if_neg (Nat.not_le.2 hposition)]
  dsimp only
  rw [if_pos rfl, hbody, String.append_assoc, htail]
  have hspace : (Token.blank .space).text = " " := rfl
  have hopen : (Token.punctuation .openParen).text = "(" := rfl
  have hclose : (Token.punctuation .closeParen).text = ")" := rfl
  have hand : " AND " = " " ++ ("AND" ++ " ") := rfl
  simp only [textOf_cons, textOf_append, text_word, hspace, hopen, hclose, hand, String.append_assoc]

end PrintsFrom

/-- The printer gives tame tokens wherever it puts the condition. -/
theorem printsFrom_of_legible {insertion : Insertion} {condition : List Token}
    (hcondition : ∀ next, Soft next → Tame next condition) (hadds : insertion.Adds condition)
    {stop position : Nat} (hlegible : Legible tablePrefix tokens) (hstop : stop ≤ position + tokens.length)
    (hplace : ∀ first t rest, tokens = first ++ t :: rest →
      insertion.actsAt (position + first.length) = true → ∃ value, t = .word value none) :
    PrintsFrom tablePrefix condition insertion stop position tokens := by
  -- on the number of tokens, because a piece takes up to three of them
  induction hlength : tokens.length using Nat.strongRecOn generalizing position tokens with
  | ind n ih =>
    by_cases hdone : stop ≤ position
    · exact .past hdone
    have hposition := Nat.not_le.1 hdone
    cases tokens with
    | nil => exact absurd hstop (by simpa using hdone)
    | cons t rest =>
      have hlater : ∀ first next, t :: rest = first ++ next → first ≠ [] →
          PrintsFrom tablePrefix condition insertion stop (position + first.length) next := by
        intro first next htokens hne
        have hpos := List.length_pos_iff.2 hne
        have htotal := congrArg List.length htokens
        rw [List.length_append] at htotal
        rw [htokens] at hlegible hplace
        refine ih next.length (by omega) hlegible.of_append (by omega) (fun before u more hnext hacts => ?_) rfl
        subst hnext
        refine hplace (first ++ before) u more (List.append_assoc ..).symm ?_
        rwa [List.length_append, ← Nat.add_assoc]
      cases hacts : insertion.actsAt position with
      | false => exact .piece hlegible hposition hacts hlater
      | true =>
        obtain ⟨value, rfl⟩ := hplace [] t rest rfl hacts
        cases insertion with
        | nowhere => exact Bool.noConfusion hacts
        | newCondition place text =>
          obtain rfl : place = position := by simpa [Insertion.actsAt] using hacts
          obtain rfl : text = textOf condition := hadds
          exact .newClause hlegible hcondition hposition
            (hlater [.word value none] rest rfl (List.cons_ne_nil _ _))
        | beside start conditionStop text =>
          obtain rfl : start = position := by simpa [Insertion.actsAt] using hacts
          obtain rfl : text = textOf condition := hadds
          rw [List.length_cons] at hstop
          refine .beside hlegible hcondition hposition hstop fun _ => ?_
          have hcount : min conditionStop stop - (start + 1) ≤ rest.length := by omega
          have htail := hlater (.word value none :: rest.take (min conditionStop stop - (start + 1))) _
            (by rw [List.cons_append, List.take_append_drop]) (List.cons_ne_nil _ _)
          rwa [List.length_cons, List.length_take, min_eq_left hcount, Nat.add_comm _ 1,
            ← Nat.add_assoc] at htail

/-! ## Texts -/

/-- The first token of a clause is an unquoted word. -/
theorem parse_clause_word {sql : String} {d : Dialect} {s : Statement} (h : parse sql d = .ok s)
    {c : Clause} (hc : c ∈ s.clauses) {t : Token} {rest : List Token}
    (hdrop : s.tokens.drop c.start = t :: rest) : ∃ value, t = .word value none := by
  obtain ⟨-, hstands, -⟩ := parse_found h
  obtain ⟨u, more, hstart, word, -, hkeyword⟩ := isKeyword_of_startsClause (hstands c hc).2.starts
  have hsame : t :: rest = u :: more := hdrop.symm.trans hstart
  obtain ⟨value, hvalue, -⟩ := isKeyword_iff.1 hkeyword
  exact ⟨value, (List.cons.inj hsame).1.trans hvalue⟩

/-- A condition is added at the start of a clause. -/
theorem insertion_word {sql : String} {d : Dialect} {s : Statement} (h : parse sql d = .ok s)
    (predicates : List Expr) {t : Token} {rest : List Token} (htokens : s.tokens = first ++ t :: rest)
    (hacts : Insertion.actsAt { s with predicates }.insertion first.length = true) :
    ∃ value, t = .word value none := by
  have hclause : ∀ c ∈ s.clauses, c.start = first.length → ∃ value, t = .word value none := by
    intro c hc hstart
    refine @parse_clause_word _ _ _ h _ hc t rest ?_
    rw [htokens, hstart, List.drop_left]
  have hcondition : ∀ kind, clauseSpan? { s with predicates } kind = s.clauseSpan? kind := fun _ => rfl
  unfold insertion at hacts
  rw [hcondition, hcondition] at hacts
  split at hacts
  · exact Bool.noConfusion hacts
  · rename_i start stop _ hspan
    obtain ⟨before, c, more, hclauses, -, hstart, -⟩ := spanIn?_eq_some hspan
    refine hclause c (by rw [hclauses]; simp) ?_
    rw [hstart]
    simpa [Insertion.actsAt] using hacts
  · rename_i start stop _ _ hspan
    obtain ⟨before, c, more, hclauses, -, -, hstop⟩ := spanIn?_eq_some hspan
    have hplace : stop = first.length := by simpa [Insertion.actsAt] using hacts
    cases more with
    | nil =>
      -- the end of the statement is no place before a token
      rw [List.head?_nil, Option.map_none, Option.getD_none, hplace, htokens, List.length_append,
        List.length_cons] at hstop
      omega
    | cons following more =>
      refine hclause following (by rw [hclauses]; simp) ?_
      rw [← hplace, hstop]
      rfl
  · exact Bool.noConfusion hacts

theorem tame_pageHead (s : Statement) :
    (∀ next, Tame next s.pageHead) ∧ placeholdersIn s.pageHead = [] := by
  have hhead : Tame (some '\n') [.word "SELECT" none, .blank .space, .operator "*", .blank .space,
      .word "FROM" none, .blank .space, .punctuation .openParen] := by decide
  unfold pageHead
  split
  · exact ⟨fun next => hhead.before rfl (.token (t := .blank .newline) rfl .nil), by decide⟩
  · exact ⟨fun next => .nil, rfl⟩

theorem tame_pageTail (hdialect : s.dialect = .sqlite) (page pageSize : UInt64) :
    Tame none (s.pageTail page pageSize) ∧ placeholdersIn (s.pageTail page pageSize) = [] := by
  have htail : Tame (some '\n') [.punctuation .closeParen, .blank .space, .word "AS" none, .blank .space,
      .word "report_page" none] := by decide
  have hbreak : ∀ tokens, placeholdersIn (.blank .newline :: tokens) = placeholdersIn tokens :=
    fun tokens => placeholdersIn_cons Token.noConfusion tokens
  obtain ⟨limit, offset, hwindow⟩ : ∃ limit offset, Query.pageWindow page pageSize = ⟨limit, offset⟩ :=
    ⟨_, _, rfl⟩
  have hpaging : Tame none ((Fragment.paging .sqlite limit offset).flatMap (Fragment.written .sqlite)) :=
    firm_paging .sqlite limit offset none soft_none
  have hnames : placeholdersIn ((Fragment.paging .sqlite limit offset).flatMap
      (Fragment.written .sqlite)) = [] := by
    rw [Fragment.placeholdersIn_written, Fragment.names_paging]
  unfold pageTail
  rw [hwindow, hdialect]
  cases s.hasClause .limit with
  | true =>
    exact ⟨htail.before rfl (.token (t := .blank .newline) rfl hpaging),
      (htail.placeholdersIn_append _).trans ((hbreak _).trans hnames)⟩
  | false =>
    cases s.tokens.getLast?.any isLineComment with
    | true => exact ⟨.token (t := .blank .newline) rfl hpaging, (hbreak _).trans hnames⟩
    | false => exact ⟨hpaging, hnames⟩

/-- A text of tame tokens whose placeholders are those of a statement and of a condition. -/
def Reads (s : Statement) (condition : List Token) (text : String) : Prop :=
  ∃ printed, text = textOf printed ∧ Tame none printed ∧
    ∀ name ∈ placeholdersIn printed, name ∈ s.placeholders ∨ name ∈ placeholdersIn condition

section Texts

variable {sql : String} {s : Statement} {predicates : List Expr} {condition : List Token}
  (hparse : parse sql .sqlite = .ok s) (hlegible : Legible tablePrefix s.tokens)
  (hcondition : ∀ next, Soft next → Tame next condition)
  (hadds : Insertion.Adds condition { s with predicates }.insertion)

include hparse hlegible hcondition hadds

theorem reads_renderUntil {stop : Nat} (hstop : stop ≤ s.tokens.length) :
    s.Reads condition (renderUntil { s with predicates } tablePrefix stop) := by
  obtain ⟨hdialect, -⟩ := parse_eq_ok hparse
  have hinside : stop ≤ 0 + s.tokens.length := by rwa [Nat.zero_add]
  obtain ⟨printed, htext, hstands⟩ := printsFrom_of_legible hcondition hadds hlegible hinside
    fun first t rest htokens hacts =>
      insertion_word hparse predicates htokens (by rwa [Nat.zero_add] at hacts)
  have hbody : renderFrom { s with predicates }.dialect tablePrefix { s with predicates }.insertion stop 0 0
      { s with predicates }.tokens = textOf printed := by
    rw [← htext, ← hdialect]
  have hkept : s.Reads condition (textOf printed) := ⟨printed, rfl, hstands.tame, hstands.names⟩
  unfold renderUntil
  dsimp only
  rw [hbody]
  split
  · rename_i place text hinsertion
    split
    · rw [hinsertion] at hadds
      obtain rfl : text = textOf condition := hadds
      obtain ⟨htame, hnames⟩ := hstands.tame.trimBack
      have hwhere : Tame (some ' ') [.word "WHERE" none] := tame_word (by decide) (by decide) (by decide)
      refine ⟨trimBack printed ++ .blank .newline :: .word "WHERE" none :: .blank .space :: condition, ?_,
        htame.before rfl (.token rfl (hwhere.before rfl (.token rfl (hcondition _ soft_none)))), ?_⟩
      · have hline : "\nWHERE " = "\n" ++ ("WHERE" ++ " ") := rfl
        have hbreak : (Token.blank .newline).text = "\n" := rfl
        have hspace : (Token.blank .space).text = " " := rfl
        simp only [textOf_append, textOf_cons, textOf_trimBack, text_word, hline, hbreak, hspace,
          String.append_assoc]
      · intro name hname
        rw [htame.placeholdersIn_append, placeholdersIn_cons Token.noConfusion,
          placeholdersIn_cons Token.noConfusion, placeholdersIn_cons Token.noConfusion, hnames,
          List.mem_append] at hname
        exact hname.elim (hstands.names name) .inr
    · exact hkept
  · exact hkept

theorem reads_framed {stop : Nat} (hstop : stop ≤ s.tokens.length) {opening closing : List Token}
    (hopening : ∀ next, Tame next opening) (hclosing : Tame none closing)
    (hnames : placeholdersIn opening = [] ∧ placeholdersIn closing = []) :
    s.Reads condition (textOf opening ++ (Text.trimEnd (renderUntil { s with predicates } tablePrefix stop) ++
      ("\n" ++ textOf closing))) := by
  obtain ⟨printed, htext, htame, hprinted⟩ := reads_renderUntil hparse hlegible hcondition hadds hstop
  obtain ⟨hbody, hbodyNames⟩ := htame.trimBack
  refine ⟨opening ++ (trimBack printed ++ .blank .newline :: closing), ?_,
    (hopening _).append (hbody.before rfl (.token rfl hclosing)), fun name hname => hprinted name ?_⟩
  · have hbreak : (Token.blank .newline).text = "\n" := rfl
    rw [htext]
    simp only [textOf_append, textOf_cons, textOf_trimBack, hbreak]
  · rwa [(hopening none).placeholdersIn_append, hbody.placeholdersIn_append,
      placeholdersIn_cons Token.noConfusion, hnames.1, hnames.2, hbodyNames, List.nil_append,
      List.append_nil] at hname

theorem reads_countSql : s.Reads condition (countSql { s with predicates } tablePrefix) := by
  have hend : s.countEnd ≤ s.tokens.length := by
    rcases s.countEnd_cases with h | ⟨c, hc, -, h⟩
    · exact h.le
    · rw [← h]
      exact ((parse_found hparse).2.1 c hc).1.le
  have hhead : Tame (some '\n') countHead.dropLast := by decide
  rw [countSql_eq_textOf]
  exact reads_framed hparse hlegible hcondition hadds hend
    (fun next => hhead.before rfl (.token (t := .blank .newline) rfl .nil)) (by decide) (by decide)

theorem reads_pagedSql (page pageSize : UInt64) :
    s.Reads condition (pagedSql { s with predicates } tablePrefix page pageSize) := by
  obtain ⟨hdialect, -⟩ := parse_eq_ok hparse
  obtain ⟨hhead, hheadNames⟩ := { s with predicates }.tame_pageHead
  obtain ⟨htail, htailNames⟩ := @tame_pageTail { s with predicates } hdialect page pageSize
  have hreads := reads_framed hparse hlegible hcondition hadds le_rfl hhead htail ⟨hheadNames, htailNames⟩
  rw [pagedSql_eq_textOf]
  exact hreads

end Texts

end Statement

end ReportSql
