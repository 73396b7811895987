import ReportSql.Proofs.Scope.Statement
import ReportSql.Proofs.Statement.Compound

/-!
# Pages and counts of compound SELECTs

A page of a statement ends with the clause of the page and has at most one ORDER BY.
The author's own LIMIT belongs into a derived table, and a count leaves an ORDER BY
out that no LIMIT depends on. This holds where nothing is combined. Behind a set
operator no clause is found: the LIMIT of a combination stays beside the clause of the
page, and its ORDER BY is counted.

## Main definitions

* `CompoundSelect.paged`, `CompoundSelect.counted` - the outermost level of a page and of a count
* `CompoundSelect.Uniform` - what pages and counts of all statements should have in common

## Main results

* `Validator.pagedSql_uniform` - the statements whose pages and counts have it
-/

namespace ReportSql

open Token Statement

/-! ## Sections around a statement -/

namespace SectionKind

theorem opens_select : ∃ word ∈ select.words, (Token.word "SELECT" none).isKeyword word = true :=
  opens_word (by decide)

theorem opens_source : ∃ word ∈ source.words, (Token.word "FROM" none).isKeyword word = true :=
  opens_word (by decide)

theorem opens_limit : ∃ word ∈ limit.words, (Token.word "LIMIT" none).isKeyword word = true :=
  opens_word (by decide)

end SectionKind

namespace Section

/-- SELECT with all columns. -/
def selectAll : Section where
  kind := .select
  keyword := .word "SELECT" none
  body := [.blank .space, .operator "*", .blank .space]
  opens := SectionKind.opens_select
  takesBy h := Bool.noConfusion h
  balanced := .of_forall (by decide)

/-- FROM with a statement in parentheses. -/
def derivedTable (o : OuterLevel) : Section where
  kind := .source
  keyword := .word "FROM" none
  body := .blank .space :: .punctuation .openParen :: ((.blank .newline :: o.tokens) ++
    .punctuation .closeParen :: [.blank .space, .word "AS" none, .blank .space,
      .word "report_page" none, .blank .newline])
  opens := SectionKind.opens_source
  takesBy h := Bool.noConfusion h
  balanced := .other Token.noConfusion (by decide)
    (.enclosed (.other Token.noConfusion Token.noConfusion o.balanced) (.of_forall (by decide)))

/-- ORDER BY a constant. -/
def constantOrder : Section where
  kind := .orderBy
  keyword := .word "ORDER" none
  body := [.blank .space, .word "BY" none, .blank .space] ++ .punctuation .openParen ::
    ([.word "SELECT" none, .blank .space, .word "NULL" none] ++
      .punctuation .closeParen :: [.blank .newline])
  opens := SectionKind.opens_word (by decide)
  takesBy _ := by decide +kernel
  balanced := .append (.of_forall (by decide))
    (.enclosed (.of_forall (by decide)) (.of_forall (by decide)))

/-- The tokens of the clause of a page. -/
def pageTokens (d : Dialect) (page pageSize : UInt64) : List Token :=
  let window := Query.pageWindow page pageSize
  (Fragment.paging d window.limit window.offset).flatMap (·.written d)

theorem balanced_pageTokens (d : Dialect) (page pageSize : UInt64) :
    Balanced (pageTokens d page pageSize) := by
  have hnested : Fragment.Nested (fun _ => True) (Fragment.paging d
      (Query.pageWindow page pageSize).limit (Query.pageWindow page pageSize).offset) := by
    cases d <;> exact Fragment.nested_of_all rfl
  exact hnested.balanced_written

/-- The clause of a page. -/
def pageClause (d : Dialect) (page pageSize : UInt64) : Section where
  kind := .limit
  keyword := .word (if d = .tsql then "OFFSET" else "LIMIT") none
  body := (pageTokens d page pageSize).tail
  opens := by
    cases d
    case tsql => exact SectionKind.opens_word (by decide)
    all_goals exact SectionKind.opens_limit
  takesBy h := Bool.noConfusion h
  balanced := by
    have h := balanced_pageTokens d page pageSize
    cases d <;> exact h.tail Token.noConfusion

theorem tokens_pageClause (d : Dialect) (page pageSize : UInt64) :
    (pageClause d page pageSize).tokens = pageTokens d page pageSize := by
  cases d <;> rfl

end Section

/-! ## Pages and counts -/

namespace CompoundSelect

/-- Whether a kind of section is among those that the scan for clauses finds. -/
def notes (q : CompoundSelect) (kind : SectionKind) : Bool :=
  q.noted.any (·.kind == kind)

/-- A further line break behind a comment to the end of the line. -/
def lineBreak (q : CompoundSelect) : Gap :=
  if q.tokens.getLast?.any isLineComment then ⟨[.blank .newline], by decide⟩ else Gap.empty

/-- The sections behind a statement of which a page is taken. -/
def pageSections (ordered : Bool) (d : Dialect) (page pageSize : UInt64) : List Section :=
  (if d.needsOrderForPaging && !ordered then [Section.constantOrder] else []) ++
    [Section.pageClause d page pageSize]

/-- The outermost level of a page. Only a LIMIT that is found makes the statement a derived table. -/
def paged (q : CompoundSelect) (d : Dialect) (tablePrefix : String) (page pageSize : UInt64) :
    OuterLevel :=
  let printed := q.outerLevel.expanded d tablePrefix
  if q.notes .limit then
    ⟨Gap.empty, .clause .selectAll :: .clause (.derivedTable (printed.ended Gap.empty)) ::
      (pageSections false d page pageSize).map .clause⟩
  else
    ⟨q.lead, (printed.ended q.lineBreak).parts ++
      (pageSections (q.notes .orderBy) d page pageSize).map .clause⟩

/-- The outermost level of the statement whose rows are counted. Only an ORDER BY that is found is left
out. -/
def counted (q : CompoundSelect) (d : Dialect) (tablePrefix : String) : OuterLevel :=
  let kept := if q.notes .orderBy && !q.notes .limit then q.combined else q.outerLevel
  (kept.expanded d tablePrefix).ended Gap.empty

/-- What pages and counts of statements should have in common. -/
structure Uniform (q : CompoundSelect) (d : Dialect) (tablePrefix : String) (page pageSize : UInt64) :
    Prop where
  /-- A page ends with the clause of the page. -/
  appended : (q.paged d tablePrefix page pageSize).parts.getLast? =
    some (.clause (.pageClause d page pageSize))
  /-- It has no other LIMIT. -/
  limits : (q.paged d tablePrefix page pageSize).kinds.count .limit = 1
  /-- It has one ORDER BY at most. -/
  orders : (q.paged d tablePrefix page pageSize).kinds.count .orderBy ≤ 1
  /-- It has one where a page needs an order. -/
  ordered : d.needsOrderForPaging = true →
    (q.paged d tablePrefix page pageSize).kinds.count .orderBy = 1
  /-- A LIMIT of the author's stands in the derived table. -/
  inside : SectionKind.limit ∈ q.outerLevel.kinds → ∃ rest,
    (q.paged d tablePrefix page pageSize).parts = .clause .selectAll ::
      .clause (.derivedTable ((q.outerLevel.expanded d tablePrefix).ended Gap.empty)) :: rest
  /-- Without one, no ORDER BY is counted. -/
  counted : SectionKind.limit ∉ q.outerLevel.kinds →
    SectionKind.orderBy ∉ (q.counted d tablePrefix).kinds

variable {q : CompoundSelect} {d : Dialect} {tablePrefix : String} {page pageSize : UInt64}

/-! ## The kinds of sections -/

/-- A kind of section that belongs to all SELECTs. -/
abbrev Late (kind : SectionKind) : Prop :=
  SectionKind.orderBy.rank ≤ kind.rank

theorem late_orderBy : Late .orderBy :=
  le_rfl

theorem late_limit : Late .limit := by
  decide

theorem Late.cases {kind : SectionKind} (h : Late kind) : kind = .orderBy ∨ kind = .limit := by
  revert h
  cases kind <;> simp [SectionKind.rank]

theorem kinds_outerLevel (q : CompoundSelect) :
    q.outerLevel.kinds = q.combined.kinds ++ q.last.map (·.kind) := by
  have hclauses : ∀ sections : List Section,
      (sections.map Part.clause).filterMap Part.kind? = sections.map (·.kind) := by
    intro sections
    rw [List.filterMap_map]
    exact congrFun (List.filterMap_eq_map (f := Section.kind)) sections
  unfold OuterLevel.kinds outerLevel
  rw [List.filterMap_append, hclauses]

theorem kinds_combined (q : CompoundSelect) :
    ∀ kind ∈ q.combined.kinds, kind.rank < SectionKind.orderBy.rank := by
  intro kind hkind
  obtain ⟨p, hp, hpart⟩ := List.mem_filterMap.1 hkind
  have hcore : ∀ core : SelectCore, p ∈ core.sections.map .clause →
      kind.rank < SectionKind.orderBy.rank := by
    intro core hp
    obtain ⟨x, hx, rfl⟩ := List.mem_map.1 hp
    obtain rfl := Option.some.inj hpart
    exact core.inner x hx
  rcases List.mem_append.1 hp with hp | hp
  · exact hcore q.first hp
  · obtain ⟨m, -, hp⟩ := List.mem_flatMap.1 hp
    rcases List.mem_cons.1 hp with rfl | hp
    · exact absurd hpart (by simp [Part.kind?])
    · exact hcore m.core hp

theorem notMem_combined (q : CompoundSelect) {kind : SectionKind} (hlate : Late kind) :
    kind ∉ q.combined.kinds :=
  fun h => absurd (q.kinds_combined kind h) (Nat.not_lt.2 hlate)

theorem mem_kinds_iff {kind : SectionKind} (hlate : Late kind) :
    kind ∈ q.outerLevel.kinds ↔ ∃ x ∈ q.last, x.kind = kind := by
  rw [kinds_outerLevel, List.mem_append, or_iff_right (q.notMem_combined hlate), List.mem_map]

theorem count_kinds_le (q : CompoundSelect) {kind : SectionKind} (hlate : Late kind) :
    q.outerLevel.kinds.count kind ≤ 1 := by
  have hnodup : (q.last.map (·.kind)).Nodup := by
    refine List.pairwise_map.2 (q.ordered.imp fun hlt hsame => ?_)
    rw [hsame] at hlt
    exact lt_irrefl _ hlt
  rw [kinds_outerLevel, List.count_append, List.count_eq_zero.2 (q.notMem_combined hlate),
    Nat.zero_add]
  exact List.nodup_iff_count_le_one.1 hnodup kind

/-- An ORDER BY or a LIMIT is found where nothing is combined. -/
theorem notes_iff {kind : SectionKind} (hlate : Late kind) :
    q.notes kind = true ↔ q.members = [] ∧ kind ∈ q.outerLevel.kinds := by
  have hfirst : ∀ x ∈ q.first.sections, x.kind ≠ kind := by
    rintro x hx rfl
    exact absurd (q.first.inner x hx) (Nat.not_lt.2 hlate)
  rw [mem_kinds_iff hlate]
  unfold notes noted
  cases q.members with
  | nil => simpa using fun x hx hsame => absurd hsame (hfirst x hx)
  | cons m more => simpa using hfirst

theorem kinds_paged : (q.paged d tablePrefix page pageSize).kinds =
    if q.notes .limit then
      .select :: .source :: ((if d.needsOrderForPaging then [.orderBy] else []) ++ [.limit])
    else
      q.outerLevel.kinds ++
        ((if d.needsOrderForPaging && !q.notes .orderBy then [.orderBy] else []) ++ [.limit]) := by
  have hsections : ∀ ordered,
      ((pageSections ordered d page pageSize).map Part.clause).filterMap Part.kind? =
        (if d.needsOrderForPaging && !ordered then [.orderBy] else []) ++ [.limit] := by
    intro ordered
    unfold pageSections
    split <;> rfl
  unfold paged
  dsimp only
  split
  · have hlast := hsections false
    rw [Bool.not_false, Bool.and_true] at hlast
    exact congrArg (SectionKind.select :: SectionKind.source :: ·) hlast
  · have hstatement := ((q.outerLevel.expanded d tablePrefix).kinds_ended q.lineBreak).trans
      (q.outerLevel.kinds_expanded d tablePrefix)
    unfold OuterLevel.kinds at hstatement ⊢
    rw [List.filterMap_append, hstatement, hsections]

theorem kinds_counted : (q.counted d tablePrefix).kinds =
    if q.notes .orderBy && !q.notes .limit then q.combined.kinds else q.outerLevel.kinds := by
  unfold counted
  dsimp only
  rw [OuterLevel.kinds_ended, OuterLevel.kinds_expanded]
  split <;> rfl

theorem getLast?_paged : (q.paged d tablePrefix page pageSize).parts.getLast? =
    some (.clause (.pageClause d page pageSize)) := by
  have hsections : ∀ (ordered : Bool) (first : List Part),
      (first ++ (pageSections ordered d page pageSize).map Part.clause).getLast? =
        some (.clause (.pageClause d page pageSize)) := by
    intro ordered first
    rw [pageSections, List.map_append, ← List.append_assoc, List.map_singleton, List.getLast?_concat]
  unfold paged
  dsimp only
  split
  · exact hsections false [_, _]
  · exact hsections _ _

/-- Behind a set operator an ORDER BY and a LIMIT are not found, and pages or counts are not as they
should be. -/
theorem not_uniform (hmembers : q.members ≠ []) (hlast : q.last ≠ []) :
    ¬ q.Uniform d tablePrefix page pageSize := by
  intro h
  have hnotes : ∀ kind, Late kind → q.notes kind = false := by
    intro kind hlate
    rw [Bool.eq_false_iff]
    exact fun hnoted => hmembers ((notes_iff hlate).1 hnoted).1
  -- a LIMIT would be the second one of the page
  have hlimit : SectionKind.limit ∉ q.outerLevel.kinds := by
    have hlimits := h.limits
    rw [kinds_paged, hnotes .limit late_limit, if_neg Bool.false_ne_true] at hlimits
    rw [← List.count_eq_zero]
    simp only [List.count_append, List.count_singleton_self] at hlimits
    omega
  -- an ORDER BY would be counted
  have horder : SectionKind.orderBy ∉ q.outerLevel.kinds := by
    have hcounted := h.counted hlimit
    rwa [kinds_counted, hnotes .orderBy late_orderBy, Bool.false_and, if_neg Bool.false_ne_true]
      at hcounted
  obtain ⟨x, rest, hx⟩ := List.exists_cons_of_ne_nil hlast
  have hmem : x ∈ q.last := by simp [hx]
  have hlate : Late x.kind := q.outer x hmem
  rcases hlate.cases with hkind | hkind
  · exact horder ((mem_kinds_iff late_orderBy).2 ⟨x, hmem, hkind⟩)
  · exact hlimit ((mem_kinds_iff late_limit).2 ⟨x, hmem, hkind⟩)

/-- Where an ORDER BY is found, a page has one at most, and one where it needs it. -/
theorem count_orderBy_paged
    (hnotes : q.notes .orderBy = true ↔ SectionKind.orderBy ∈ q.outerLevel.kinds) :
    (q.paged d tablePrefix page pageSize).kinds.count .orderBy ≤ 1 ∧
      (d.needsOrderForPaging = true →
        (q.paged d tablePrefix page pageSize).kinds.count .orderBy = 1) := by
  rw [kinds_paged]
  split
  · cases d.needsOrderForPaging <;> decide
  · rw [List.count_append]
    cases hnoted : q.notes .orderBy with
    | true =>
      have hle := q.count_kinds_le late_orderBy
      have hpos := List.count_pos_iff.2 (hnotes.1 hnoted)
      have hclause : List.count SectionKind.orderBy ([] ++ [.limit]) = 0 := by decide
      rw [Bool.not_true, Bool.and_false, if_neg Bool.false_ne_true, hclause]
      omega
    | false =>
      have hnone : SectionKind.orderBy ∉ q.outerLevel.kinds := by
        rw [← hnotes, hnoted]
        exact Bool.false_ne_true
      rw [List.count_eq_zero.2 hnone]
      cases d.needsOrderForPaging <;> decide

/-- Where an ORDER BY and a LIMIT are found, pages and counts are as they should be. -/
theorem uniform_of_notes
    (hnotes : ∀ kind, Late kind → (q.notes kind = true ↔ kind ∈ q.outerLevel.kinds)) :
    q.Uniform d tablePrefix page pageSize := by
  have hlimit := hnotes .limit late_limit
  have horder := hnotes .orderBy late_orderBy
  obtain ⟨horders, hordered⟩ := count_orderBy_paged horder
  refine ⟨getLast?_paged, ?_, horders, hordered, fun h => ?_, fun h => ?_⟩
  · rw [kinds_paged]
    split
    · split <;> rfl
    · rename_i hnone
      rw [hlimit] at hnone
      rw [List.count_append, List.count_eq_zero.2 hnone]
      split <;> rfl
  · unfold paged
    dsimp only
    rw [if_pos (hlimit.2 h)]
    exact ⟨_, rfl⟩
  · rw [kinds_counted]
    split
    · exact q.notMem_combined late_orderBy
    · rename_i hkept
      intro hmem
      rw [← hlimit, Bool.not_eq_true] at h
      rw [horder.2 hmem, h] at hkept
      exact hkept rfl

/-- Pages and counts are as they should be where nothing is combined, or nothing stands behind the
combination. -/
theorem uniform_iff :
    q.Uniform d tablePrefix page pageSize ↔ q.members = [] ∨ q.last = [] := by
  constructor
  · intro h
    by_contra hne
    obtain ⟨hmembers, hlast⟩ := not_or.1 hne
    exact not_uniform hmembers hlast h
  · intro h
    refine uniform_of_notes fun kind hlate => ?_
    rw [notes_iff hlate]
    refine ⟨(·.2), fun hkind => ⟨h.resolve_right fun hlast => ?_, hkind⟩⟩
    obtain ⟨x, hx, -⟩ := (mem_kinds_iff hlate).1 hkind
    rw [hlast] at hx
    exact absurd hx List.not_mem_nil

/-! ## Texts -/

theorem textOf_around (opening inner closing : List Token) :
    textOf opening ++ (Text.trimEnd (textOf inner) ++ ("\n" ++ textOf closing)) =
      textOf (opening ++ (withLineBreak (trimBack inner) ++ closing)) := by
  simp only [textOf_append, textOf_withLineBreak, textOf_trimBack, String.append_assoc]

theorem tokens_pageSections (ordered : Bool) (d : Dialect) (page pageSize : UInt64) :
    ((pageSections ordered d page pageSize).map Part.clause).flatMap Part.tokens =
      (if d.needsOrderForPaging && !ordered then orderTokens else []) ++
        Section.pageTokens d page pageSize := by
  rw [flatMap_clause, pageSections, sectionTokens, List.flatMap_append, List.flatMap_singleton,
    Section.tokens_pageClause]
  split <;> rfl

variable {s : Statement}

theorem hasClause_eq (hclauses : s.clauses = clausesFrom q.lead.1.length q.noted) {kind : SectionKind}
    {clause : ClauseKind} (hkind : kind.clause? = some clause) : s.hasClause clause = q.notes kind := by
  rw [Bool.eq_iff_iff, hasClause_iff hclauses, notes, List.any_eq_true]
  refine exists_congr fun x => and_congr_right fun _ => ?_
  rw [beq_iff_eq]
  exact ⟨fun h => SectionKind.clause?_injective h hkind, fun h => h ▸ hkind⟩

theorem tokens_page (hclear : q.Clear) (d : Dialect) (tablePrefix : String) (gap : Gap) :
    ((q.outerLevel.expanded d tablePrefix).ended gap).tokens =
      withLineBreak (trimBack (expand d tablePrefix q.tokens)) ++ gap.1 := by
  have hparts : (q.outerLevel.expanded d tablePrefix).parts ≠ [] := by
    simpa [OuterLevel.expanded] using q.parts_ne_nil.2
  rw [OuterLevel.tokens_ended gap hparts, ← OuterLevel.tokens_expanded hclear.whole]
  rfl

theorem pagedSql_eq (hpredicates : s.predicates = []) (htokens : s.tokens = q.tokens)
    (hclear : q.Clear) (hclauses : s.clauses = clausesFrom q.lead.1.length q.noted)
    (tablePrefix : String) (page pageSize : UInt64) :
    s.pagedSql tablePrefix page pageSize =
      textOf (q.paged s.dialect tablePrefix page pageSize).tokens := by
  have hlimit : s.hasClause .limit = q.notes .limit := hasClause_eq hclauses rfl
  have horder : s.hasClause .orderBy = q.notes .orderBy := hasClause_eq hclauses rfl
  rw [pagedSql_eq_textOf, render_eq hpredicates, textOf_around, htokens]
  refine congrArg textOf ?_
  rw [pageHead, pageTail, hlimit, horder, htokens, paged]
  cases q.notes .limit with
  | true =>
    -- the statement becomes a derived table
    have hsections := tokens_pageSections false s.dialect page pageSize
    have hinner := tokens_page hclear s.dialect tablePrefix Gap.empty
    rw [Bool.not_false, Bool.and_true] at hsections
    generalize (q.outerLevel.expanded s.dialect tablePrefix).ended Gap.empty = inner at hinner ⊢
    rw [if_pos rfl, if_pos rfl, if_pos rfl, OuterLevel.tokens, List.flatMap_cons, List.flatMap_cons,
      hsections, ← List.append_nil (withLineBreak _), ← show Gap.empty.1 = [] from rfl, ← hinner]
    simp [Section.selectAll, Section.derivedTable, Section.pageTokens, Part.tokens, Part.keyword,
      Part.body, Gap.empty]
  | false =>
    -- the statement stays, with the sections of the page behind it
    have hsections := tokens_pageSections (q.notes .orderBy) s.dialect page pageSize
    have hinner : q.lead.1 ++ ((q.outerLevel.expanded s.dialect tablePrefix).ended q.lineBreak).parts.flatMap
        Part.tokens = _ := tokens_page hclear s.dialect tablePrefix q.lineBreak
    have hbreak : q.lineBreak.1 = if q.tokens.getLast?.any isLineComment then [.blank .newline] else [] := by
      unfold lineBreak
      split <;> rfl
    rw [if_neg Bool.false_ne_true, if_neg Bool.false_ne_true, if_neg Bool.false_ne_true,
      OuterLevel.tokens, List.flatMap_append, hsections, ← List.append_assoc q.lead.1, hinner, hbreak,
      List.append_assoc]
    rfl

/-- An ORDER BY without a LIMIT stands behind all other sections. -/
theorem clause?_orderBy (hclauses : s.clauses = clausesFrom q.lead.1.length q.noted)
    (horder : q.notes .orderBy = true) (hlimit : q.notes .limit = false) :
    s.clause? .orderBy = some ⟨.orderBy, q.combined.tokens.length⟩ := by
  obtain ⟨hmembers, hkind⟩ := (notes_iff late_orderBy).1 horder
  obtain ⟨x, hx, -⟩ := (mem_kinds_iff late_orderBy).1 hkind
  obtain ⟨y, rest, hlast⟩ := List.exists_cons_of_ne_nil (List.ne_nil_of_mem hx)
  have hy : y ∈ q.last := by simp [hlast]
  -- without a LIMIT the first of the last sections is the ORDER BY
  have hykind : y.kind = .orderBy := by
    refine (Late.cases (q.outer y hy)).resolve_right fun hsame => ?_
    have hnoted := (notes_iff late_limit).2
      ⟨hmembers, (mem_kinds_iff late_limit).2 ⟨y, hy, hsame⟩⟩
    rw [hlimit] at hnoted
    exact Bool.noConfusion hnoted
  have hfirst : ∀ c ∈ clausesFrom q.lead.1.length q.first.sections,
      ¬ (c.kind == ClauseKind.orderBy) = true := by
    intro c hc hsame
    obtain ⟨z, hz, hclause⟩ := (exists_mem_clausesFrom _).1 ⟨c, hc, beq_iff_eq.1 hsame⟩
    have hlt := q.first.inner z hz
    rw [SectionKind.clause?_injective hclause (show SectionKind.orderBy.clause? = _ from rfl)] at hlt
    exact lt_irrefl _ hlt
  have hnoted : q.noted = q.first.sections ++ y :: rest := by
    rw [noted, hmembers, hlast]
    rfl
  have hlength : q.combined.tokens.length =
      q.lead.1.length + (sectionTokens q.first.sections).length := by
    rw [OuterLevel.tokens, combined, hmembers, List.flatMap_nil, List.append_nil, flatMap_clause,
      List.length_append]
  rw [clause?, hclauses, hnoted, clausesFrom_append, List.find?_append, List.find?_eq_none.2 hfirst,
    clausesFrom, hykind, hlength]
  rfl

/-- Where the statement stops whose rows are counted. -/
theorem countEnd_eq (htokens : s.tokens = q.tokens)
    (hclauses : s.clauses = clausesFrom q.lead.1.length q.noted) {kept : OuterLevel}
    (hkept : kept = if q.notes .orderBy && !q.notes .limit then q.combined else q.outerLevel) :
    s.countEnd = kept.tokens.length ∧
      ∃ rest : List Part, s.tokens = kept.tokens ++ rest.flatMap Part.tokens := by
  have hlimit : s.hasClause .limit = q.notes .limit := hasClause_eq hclauses rfl
  have horder : s.hasClause .orderBy = q.notes .orderBy := hasClause_eq hclauses rfl
  have hall : s.tokens.length = q.outerLevel.tokens.length ∧
      ∃ rest : List Part, s.tokens = q.outerLevel.tokens ++ rest.flatMap Part.tokens :=
    ⟨congrArg List.length htokens, [], by rw [htokens]; exact (List.append_nil _).symm⟩
  unfold countEnd
  cases hlimited : q.notes .limit with
  | true =>
    -- an ORDER BY stays where the author's LIMIT depends on it
    rw [hlimited, Bool.not_true, Bool.and_false, if_neg Bool.false_ne_true] at hkept
    rw [hlimit, hlimited, hkept]
    cases s.clause? .orderBy <;> exact hall
  | false =>
    cases hordered : q.notes .orderBy with
    | false =>
      rw [hordered, Bool.false_and, if_neg Bool.false_ne_true] at hkept
      have hnone : s.clause? .orderBy = none := by
        rw [← Option.not_isSome_iff_eq_none]
        rw [hordered, hasClause] at horder
        simp [horder]
      rw [hnone, hkept]
      exact hall
    | true =>
      rw [hordered, hlimited, Bool.not_false, Bool.and_true, if_pos rfl] at hkept
      rw [clause?_orderBy hclauses hordered hlimited, hlimit, hlimited, hkept]
      refine ⟨rfl, q.last.map .clause, ?_⟩
      rw [htokens, tokens, OuterLevel.tokens, OuterLevel.tokens, List.append_assoc,
        ← List.flatMap_append]
      rfl

theorem countSql_eq (hpredicates : s.predicates = []) (htokens : s.tokens = q.tokens)
    (hclear : q.Clear) (hclauses : s.clauses = clausesFrom q.lead.1.length q.noted)
    (tablePrefix : String) :
    s.countSql tablePrefix =
      textOf (countHead ++ ((q.counted s.dialect tablePrefix).tokens ++ countTail)) := by
  unfold counted
  dsimp only
  generalize hkept : (if q.notes .orderBy && !q.notes .limit then q.combined else q.outerLevel) = kept
  obtain ⟨hend, rest, hsplit⟩ := countEnd_eq htokens hclauses hkept.symm
  have hsub : ∀ p ∈ kept.parts, p ∈ q.outerLevel.parts := by
    rw [← hkept]
    split
    · exact fun p hp => List.mem_append_left _ hp
    · exact fun p hp => hp
  have hwhole : ∀ p ∈ kept.parts, EndsWhole p.body := fun p hp => hclear.whole p (hsub p hp)
  have hparts : (kept.expanded s.dialect tablePrefix).parts ≠ [] := by
    have hne : kept.parts ≠ [] := by
      rw [← hkept]
      split
      · exact q.parts_ne_nil.1
      · exact q.parts_ne_nil.2
    simpa [OuterLevel.expanded] using hne
  rw [countSql_eq_textOf, hend, renderUntil_eq hpredicates hsplit (OuterLevel.whole_tokens hwhole rest),
    textOf_around, OuterLevel.tokens_expanded hwhole, OuterLevel.tokens_ended Gap.empty hparts,
    show Gap.empty.1 = [] from rfl, List.append_nil]

end CompoundSelect

/-! ## Accepted statements -/

/-- The page and the count of an accepted statement, and whether they are as they should be. -/
theorem Validator.pagedSql_uniform {v : Validator} {sql : String} {s : Statement} {q : CompoundSelect}
    (hvalid : v.validate sql = .ok s) (htokens : s.tokens = q.tokens) (hclear : q.Clear)
    (tablePrefix : String) (page pageSize : UInt64) :
    s.pagedSql tablePrefix page pageSize =
        textOf (q.paged v.dialect tablePrefix page pageSize).tokens ∧
      s.countSql tablePrefix =
        textOf (countHead ++ ((q.counted v.dialect tablePrefix).tokens ++ countTail)) ∧
      (q.Uniform v.dialect tablePrefix page pageSize ↔ q.members = [] ∨ q.last = []) := by
  obtain ⟨-, hparse, -⟩ := validate_eq_ok hvalid
  obtain ⟨hdialect, hpredicates, -⟩ := parse_eq_ok hparse
  have hclauses := CompoundSelect.clauses_eq hparse htokens hclear
  rw [← hdialect]
  exact ⟨CompoundSelect.pagedSql_eq hpredicates htokens hclear hclauses tablePrefix page pageSize,
    CompoundSelect.countSql_eq hpredicates htokens hclear hclauses tablePrefix,
    CompoundSelect.uniform_iff⟩

namespace CompoundSelect

/-- The SELECT of the ids of a table. -/
def idCore (table short : String) : SelectCore where
  sections :=
    [{ kind := .select
       keyword := .word "SELECT" none
       body := [.blank .space, .word short none, .punctuation .period, .word "id" none, .blank .space]
       opens := SectionKind.opens_select
       takesBy h := Bool.noConfusion h
       balanced := .of_forall (by simp) },
     { kind := .source
       keyword := .word "FROM" none
       body := [.blank .space, .punctuation .openBrace, .word table none, .punctuation .closeBrace,
         .blank .space, .word short none, .blank .space]
       opens := SectionKind.opens_source
       takesBy h := Bool.noConfusion h
       balanced := .of_forall (by simp) }]
  ordered := by simp [SectionKind.rank]
  inner := by simp [SectionKind.rank]

/-- The first ids of all users. -/
def firstUsers : CompoundSelect where
  lead := Gap.empty
  first := idCore "user" "u"
  members := []
  last :=
    [{ kind := .limit
       keyword := .word "LIMIT" none
       body := [.blank .space, .number "5" false]
       opens := SectionKind.opens_limit
       takesBy h := Bool.noConfusion h
       balanced := .of_forall (by decide) }]
  isSelect := rfl
  ordered := List.pairwise_singleton _ _
  outer := by simp [SectionKind.rank]

/-- The first ids of all users and courses. -/
def firstIds : CompoundSelect :=
  { firstUsers with
    members :=
      [{ operator :=
          { keyword := .word "UNION" none
            body := [.blank .space]
            combines := ⟨"UNION", by decide, by decide +kernel⟩
            balanced := .of_forall (by decide) }
         core := idCore "course" "c" }] }

end CompoundSelect

open CompoundSelect in
theorem Validator.pagedSql_uniform_limit : ∃ s,
    (Validator.mk Whitelist.builtin .sqlite "").validate "SELECT u.id FROM {user} u LIMIT 5" = .ok s ∧
      s.tokens = firstUsers.tokens ∧ firstUsers.Clear ∧
      s.pagedSql "" 2 10 = textOf (firstUsers.paged .sqlite "" 2 10).tokens ∧
      firstUsers.Uniform .sqlite "" 2 10 := by
  obtain ⟨s, hvalid, htokens⟩ : ∃ s, (Validator.mk Whitelist.builtin .sqlite "").validate
      "SELECT u.id FROM {user} u LIMIT 5" = .ok s ∧ s.tokens = firstUsers.tokens := by
    decide +kernel
  have hclear : firstUsers.Clear := ⟨by decide +kernel, by decide +kernel⟩
  obtain ⟨hpaged, -, huniform⟩ := pagedSql_uniform hvalid htokens hclear "" 2 10
  exact ⟨s, hvalid, htokens, hclear, hpaged, huniform.2 (.inl rfl)⟩

open CompoundSelect in
/-- The LIMIT of a combination stays beside the clause of the page. -/
theorem Validator.pagedSql_uniform_union : ∃ s,
    (Validator.mk Whitelist.builtin .sqlite "").validate
        "SELECT u.id FROM {user} u UNION SELECT c.id FROM {course} c LIMIT 5" = .ok s ∧
      s.tokens = firstIds.tokens ∧ firstIds.Clear ∧
      s.pagedSql "" 0 10 =
        "SELECT u.id FROM \"user\" u UNION SELECT c.id FROM course c LIMIT 5\nLIMIT 10 OFFSET 0" ∧
      s.pagedSql "" 0 10 = textOf (firstIds.paged .sqlite "" 0 10).tokens ∧
      (firstIds.paged .sqlite "" 0 10).kinds.count .limit = 2 ∧
      ¬ firstIds.Uniform .sqlite "" 0 10 := by
  obtain ⟨s, hvalid, htokens⟩ : ∃ s, (Validator.mk Whitelist.builtin .sqlite "").validate
      "SELECT u.id FROM {user} u UNION SELECT c.id FROM {course} c LIMIT 5" = .ok s ∧
        s.tokens = firstIds.tokens := by
    decide +kernel
  have hclear : firstIds.Clear := ⟨by decide +kernel, by decide +kernel⟩
  obtain ⟨-, hparse, -⟩ := validate_eq_ok hvalid
  obtain ⟨hdialect, hpredicates, -⟩ := parse_eq_ok hparse
  have hpaged := CompoundSelect.pagedSql_eq hpredicates htokens hclear
    (CompoundSelect.clauses_eq hparse htokens hclear) "" 0 10
  rw [hdialect] at hpaged
  have htext : textOf (firstIds.paged .sqlite "" 0 10).tokens =
      "SELECT u.id FROM \"user\" u UNION SELECT c.id FROM course c LIMIT 5\nLIMIT 10 OFFSET 0" := by
    decide +kernel
  exact ⟨s, hvalid, htokens, hclear, hpaged.trans htext, hpaged, by decide +kernel,
    not_uniform (List.cons_ne_nil _ _) (List.cons_ne_nil _ _)⟩

end ReportSql
