import ReportSql.Proofs.Statement.Sections
import ReportSql.Proofs.Validation.Keywords

/-!
# The spans of the sections of a SELECT

When the scan finds the sections of a SELECT, the span of a clause reaches from its
keyword to the next section that is no WINDOW. A condition that is put in
parentheses with a predicate behind it, and a new condition behind the FROM section,
leave a SELECT of the same shape.

## Main definitions

* `AuthorSelect.wrapped`, `AuthorSelect.extended` - a SELECT with a predicate added to it
* `Statement.Mirrors` - a statement whose clauses are the sections of a SELECT

## Main results

* `Statement.parse_sections` - when the clauses of a statement are its sections
-/

namespace ReportSql

open Token

namespace Statement

/-! ## Spans -/

theorem spanIn?_append {kind : ClauseKind} {first : List Clause} (h : ∀ c ∈ first, c.kind ≠ kind)
    (stop : Nat) (rest : List Clause) : spanIn? kind stop (first ++ rest) = spanIn? kind stop rest := by
  induction first with
  | nil => rfl
  | cons c first ih =>
    obtain ⟨hc, h⟩ := List.forall_mem_cons.1 h
    rw [List.cons_append, spanIn?, if_neg hc, ih h]

theorem clausesFrom_append (position : Nat) (first rest : List Section) :
    clausesFrom position (first ++ rest) =
      clausesFrom position first ++ clausesFrom (position + (sectionTokens first).length) rest := by
  induction first generalizing position with
  | nil => rfl
  | cons x first ih =>
    rw [List.cons_append, clausesFrom, clausesFrom, ih, List.append_assoc]
    congr 3
    simp only [sectionTokens, List.flatMap_cons, List.length_append]
    omega

theorem exists_mem_clausesFrom (position : Nat) {sections : List Section} {kind : ClauseKind} :
    (∃ c ∈ clausesFrom position sections, c.kind = kind) ↔
      ∃ x ∈ sections, x.kind.clause? = some kind := by
  induction sections generalizing position with
  | nil => simp [clausesFrom]
  | cons x rest ih =>
    rw [clausesFrom, List.exists_mem_cons_iff, ← ih (position + x.tokens.length)]
    cases x.kind.clause? <;> simp [or_and_right, exists_or]

theorem hasClause_iff {s : Statement} {position : Nat} {sections : List Section}
    (hclauses : s.clauses = clausesFrom position sections) (kind : ClauseKind) :
    s.hasClause kind = true ↔ ∃ x ∈ sections, x.kind.clause? = some kind := by
  rw [← exists_mem_clausesFrom position, ← hclauses]
  simp [hasClause, clause?]

/-- Where the clauses of sections begin, WINDOW sections passed over. -/
theorem start_clausesFrom (position : Nat) (sections : List Section) :
    ((clausesFrom position sections).head?.map (·.start)).getD
        (position + (sectionTokens sections).length) =
      position + (sectionTokens (sections.takeWhile (·.kind == .window))).length := by
  induction sections generalizing position with
  | nil => rfl
  | cons x rest ih =>
    rw [clausesFrom]
    cases hclause : x.kind.clause? with
    | some kind =>
      have hkind : x.kind ≠ .window := by
        rw [Ne, ← SectionKind.clause?_eq_none, hclause]
        simp
      rw [List.takeWhile_cons_of_neg (by simpa using hkind)]
      rfl
    | none =>
      rw [List.takeWhile_cons_of_pos (by simpa using SectionKind.clause?_eq_none.1 hclause)]
      have hrest := ih (position + x.tokens.length)
      simp only [sectionTokens, List.flatMap_cons, List.length_append, ← Nat.add_assoc] at hrest ⊢
      exact hrest

/-- The span of a section that stands for a clause, with the WINDOW section after it. -/
theorem spanIn?_clausesFrom {kind : ClauseKind} {x : Section} (hkind : x.kind.clause? = some kind)
    {first rest : List Section} (hfirst : ∀ y ∈ first, y.kind ≠ x.kind) (position : Nat) :
    spanIn? kind (position + (sectionTokens (first ++ x :: rest)).length)
        (clausesFrom position (first ++ x :: rest)) =
      some (position + (sectionTokens first).length, position +
        (sectionTokens (first ++ x :: rest.takeWhile (·.kind == .window))).length) := by
  have hskip : ∀ c ∈ clausesFrom position first, c.kind ≠ kind := by
    intro c hc hsame
    obtain ⟨y, hy, hclause⟩ := (exists_mem_clausesFrom _).1 ⟨c, hc, hsame⟩
    exact hfirst y hy (SectionKind.clause?_injective hclause hkind)
  have hlength : ∀ more, position + (sectionTokens (first ++ x :: more)).length =
      position + (sectionTokens first).length + x.tokens.length + (sectionTokens more).length := by
    intro more
    simp only [sectionTokens, List.flatMap_append, List.flatMap_cons, List.length_append]
    omega
  rw [clausesFrom_append, spanIn?_append hskip, clausesFrom, hkind, hlength, hlength]
  rw [Option.map_some, Option.toList_some, List.singleton_append, spanIn?, if_pos rfl,
    start_clausesFrom]

end Statement

namespace AuthorSelect

/-! ## Predicates added to a SELECT -/

/-- A condition in parentheses with a predicate behind it. -/
def wrap (condition predicate : List Token) : List Token :=
  .punctuation .openParen :: (condition ++ .punctuation .closeParen :: predicate)

/-- A condition section with a predicate behind it. -/
def wrapSection (x : Section) (hkind : x.kind = .condition) (predicate : BalancedTokens) :
    Section where
  kind := x.kind
  keyword := x.keyword
  body := wrap x.body predicate.1
  opens := x.opens
  takesBy h := by rw [hkind] at h; exact Bool.noConfusion h
  balanced := .enclosed x.balanced predicate.2

/-- A condition section with a predicate. -/
def conditionSection (keyword : KeywordToken "WHERE") (predicate : BalancedTokens) : Section where
  kind := .condition
  keyword := keyword.1
  body := predicate.1
  opens := ⟨"WHERE", List.mem_singleton_self _, keyword.2⟩
  takesBy h := Bool.noConfusion h
  balanced := predicate.2

/-- Sections of the kinds of a SELECT, in order, make a SELECT. -/
theorem exists_sections (lead : Gap) {sections : List Section} {kinds : List SectionKind}
    (hkinds : sections.map (·.kind) = .select :: .source :: kinds)
    (hordered : (sections.map (·.kind)).Pairwise fun a b => a.rank < b.rank) :
    ∃ q : AuthorSelect, q.lead = lead ∧ q.sections = sections := by
  obtain ⟨select, more, rfl, hselect, hmore⟩ := List.map_eq_cons_iff.1 hkinds
  obtain ⟨source, others, rfl, hsource, -⟩ := List.map_eq_cons_iff.1 hmore
  rw [List.pairwise_map] at hordered
  exact ⟨⟨lead, select, source, others, hselect, hsource, hordered⟩, rfl, rfl⟩

theorem kinds_sections (q : AuthorSelect) :
    q.sections.map (·.kind) = .select :: .source :: q.others.map (·.kind) := by
  unfold sections
  rw [List.map_cons, List.map_cons, q.isSelect, q.isSource]

/-- The kind of clause behind sections. -/
def latestClause (current : ClauseKind) (sections : List Section) : ClauseKind :=
  sections.foldl (fun current x => x.kind.clause?.getD current) current

theorem clearFrom_append (current : ClauseKind) (first rest : List Section) :
    ClearFrom current (first ++ rest) ↔
      ClearFrom current first ∧ ClearFrom (latestClause current first) rest := by
  induction first generalizing current with
  | nil => exact (and_iff_right trivial).symm
  | cons x first ih =>
    rw [List.cons_append, ClearFrom, ClearFrom, ih, and_assoc]
    rfl

/-- Only a WINDOW section depends on the clause before it. -/
theorem clearFrom_congr {rest : List Section} (h : ∀ x ∈ rest.head?, x.kind ≠ .window)
    (first second : ClauseKind) : ClearFrom first rest ↔ ClearFrom second rest := by
  cases rest with
  | nil => exact Iff.rfl
  | cons x rest =>
    obtain ⟨kind, hkind⟩ := Option.ne_none_iff_exists'.1 (mt SectionKind.clause?_eq_none.1 (h x rfl))
    rw [ClearFrom, ClearFrom, hkind]
    rfl

variable {q : AuthorSelect} {first rest : List Section} {x : Section}

theorem kind_lt (h : q.sections = first ++ x :: rest) :
    (∀ y ∈ first, y.kind.rank < x.kind.rank) ∧ ∀ y ∈ rest, x.kind.rank < y.kind.rank := by
  have hordered := q.ordered
  rw [show q.select :: q.source :: q.others = first ++ x :: rest from h, List.pairwise_append,
    List.pairwise_cons] at hordered
  exact ⟨fun y hy => hordered.2.2 y hy x List.mem_cons_self, hordered.2.1.1⟩

theorem exists_wrapped (h : q.sections = first ++ x :: rest) (hkind : x.kind = .condition)
    (hclear : q.Clear) (predicate : BalancedTokens) (hquiet : Quiet .condition predicate.1) :
    ∃ q' : AuthorSelect, q'.Clear ∧ q'.lead = q.lead ∧
      q'.sections = first ++ wrapSection x hkind predicate :: rest ∧
      q'.sections.map (·.kind) = q.sections.map (·.kind) := by
  have hkinds : (first ++ wrapSection x hkind predicate :: rest).map (·.kind) =
      q.sections.map (·.kind) := by
    rw [h, List.map_append, List.map_append]
    rfl
  have hordered : (q.sections.map (·.kind)).Pairwise fun a b => a.rank < b.rank :=
    List.pairwise_map.2 q.ordered
  obtain ⟨q', hlead, hsections⟩ := exists_sections q.lead (hkinds.trans q.kinds_sections)
    (hkinds ▸ hordered)
  refine ⟨q', ?_, hlead, hsections, hsections ▸ hkinds⟩
  unfold AuthorSelect.Clear at hclear ⊢
  rw [h, clearFrom_append, ClearFrom, hkind] at hclear
  rw [hsections, clearFrom_append, ClearFrom]
  obtain ⟨hfirst, -, hrest⟩ := hclear
  refine ⟨hfirst, ?_, ?_⟩
  · rw [show (wrapSection x hkind predicate).kind = .condition from hkind]
    exact (quiet_enclosed x.balanced).2 hquiet
  · rw [show (wrapSection x hkind predicate).kind = .condition from hkind]
    exact hrest

/-- The FROM section is the second one. -/
theorem kinds_before_source (h : q.sections = first ++ x :: rest) (hkind : x.kind = .source) :
    first.map (·.kind) = [.select] := by
  have hkinds := q.kinds_sections
  rw [h, List.map_append, List.map_cons, hkind] at hkinds
  cases first with
  | nil => exact absurd (List.cons.inj hkinds).1 (by decide)
  | cons y more =>
    rw [List.map_cons, List.cons_append] at hkinds
    obtain ⟨hy, hmore⟩ := List.cons.inj hkinds
    cases more with
    | nil => rw [List.map_cons, hy, List.map_nil]
    | cons z more =>
      have hz : z.kind = .source := (List.cons.inj hmore).1
      have hlt := (kind_lt h).1 z (by simp)
      rw [hz, hkind] at hlt
      exact absurd hlt (lt_irrefl _)

/-- A condition has its place behind the FROM section where there is none yet. -/
theorem ordered_extended (h : q.sections = first ++ x :: rest) (hkind : x.kind = .source)
    (hnone : ∀ y ∈ q.sections, y.kind ≠ .condition) (keyword : KeywordToken "WHERE")
    (predicate : BalancedTokens) :
    (first ++ x :: conditionSection keyword predicate :: rest).Pairwise
      fun a b => a.kind.rank < b.kind.rank := by
  have hordered := q.ordered
  rw [show q.select :: q.source :: q.others = first ++ x :: rest from h, List.pairwise_append,
    List.pairwise_cons] at hordered
  obtain ⟨hfirstOrdered, ⟨hlater, hrestOrdered⟩, hearlier⟩ := hordered
  -- no clause has its place between FROM and WHERE
  have hrank : ∀ kind : SectionKind, SectionKind.source.rank < kind.rank → kind ≠ .condition →
      SectionKind.condition.rank < kind.rank := by
    intro kind
    cases kind <;> decide
  have hconditionLater : ∀ y ∈ rest, SectionKind.condition.rank < y.kind.rank := by
    intro y hy
    have hlt := hlater y hy
    rw [hkind] at hlt
    exact hrank y.kind hlt (hnone y (by simp [h, hy]))
  have hconditionEarlier : ∀ y ∈ first, y.kind.rank < SectionKind.condition.rank := by
    intro y hy
    have hlt := hearlier y hy x List.mem_cons_self
    rw [hkind] at hlt
    exact hlt.trans (by decide)
  refine List.pairwise_append.2 ⟨hfirstOrdered, ?_, ?_⟩
  · refine List.pairwise_cons.2 ⟨?_, List.pairwise_cons.2 ⟨hconditionLater, hrestOrdered⟩⟩
    refine List.forall_mem_cons.2 ⟨?_, hlater⟩
    rw [hkind]
    show SectionKind.source.rank < SectionKind.condition.rank
    decide
  · intro y hy
    refine List.forall_mem_cons.2 ⟨hearlier y hy x List.mem_cons_self,
      List.forall_mem_cons.2 ⟨hconditionEarlier y hy, ?_⟩⟩
    exact fun z hz => hearlier y hy z (List.mem_cons_of_mem _ hz)

theorem exists_extended (h : q.sections = first ++ x :: rest) (hkind : x.kind = .source)
    (hnone : ∀ y ∈ q.sections, y.kind ≠ .condition) (hwindow : ∀ y ∈ rest.head?, y.kind ≠ .window)
    (hclear : q.Clear) (keyword : KeywordToken "WHERE") (predicate : BalancedTokens)
    (hquiet : Quiet .condition predicate.1) :
    ∃ q' : AuthorSelect, q'.Clear ∧ q'.lead = q.lead ∧
      q'.sections = first ++ x :: conditionSection keyword predicate :: rest := by
  have hkinds : (first ++ x :: conditionSection keyword predicate :: rest).map (·.kind) =
      .select :: .source :: .condition :: rest.map (·.kind) := by
    rw [List.map_append, kinds_before_source h hkind, List.map_cons, hkind]
    rfl
  obtain ⟨q', hlead, hsections⟩ := exists_sections q.lead hkinds
    (List.pairwise_map.2 (ordered_extended h hkind hnone keyword predicate))
  refine ⟨q', ?_, hlead, hsections⟩
  unfold AuthorSelect.Clear at hclear ⊢
  rw [h, clearFrom_append, ClearFrom] at hclear
  rw [hsections, clearFrom_append, ClearFrom, ClearFrom]
  obtain ⟨hclearFirst, hbody, hrest⟩ := hclear
  exact ⟨hclearFirst, hbody, hquiet, (clearFrom_congr hwindow _ _).1 hrest⟩

end AuthorSelect

namespace Statement

/-! ## Statements -/

/-- A statement whose clauses are the sections of a SELECT. -/
structure Mirrors (s : Statement) (q : AuthorSelect) : Prop where
  /-- A clause is present exactly when its section is. -/
  present : ∀ kind, s.hasClause kind = true ↔ ∃ x ∈ q.sections, x.kind.clause? = some kind
  /-- A clause reaches to the next section that is no WINDOW. -/
  span : ∀ first x rest kind, q.sections = first ++ x :: rest → x.kind.clause? = some kind →
    s.clauseSpan? kind =
      some (q.place first, q.place (first ++ x :: rest.takeWhile (·.kind == .window)))
  /-- The condition in parentheses with a predicate behind it is the condition of a SELECT with the
  same kinds of sections. -/
  wrapped : ∀ first x rest start stop, q.sections = first ++ x :: rest → x.kind = .condition →
    (∀ y ∈ rest.head?, y.kind ≠ .window) → s.clauseSpan? .condition = some (start, stop) →
    ∀ predicate : BalancedTokens, Quiet .condition predicate.1 →
      ∃ q' : AuthorSelect, q'.Clear ∧ q'.sections.map (·.kind) = q.sections.map (·.kind) ∧
        q'.tokens = s.tokens.take (start + 1) ++
          (AuthorSelect.wrap ((s.tokens.take stop).drop (start + 1)) predicate.1 ++
            s.tokens.drop stop)
  /-- A condition behind the FROM clause is the condition of a SELECT with this section more. -/
  extended : ∀ first x rest start stop, q.sections = first ++ x :: rest → x.kind = .source →
    (∀ y ∈ q.sections, y.kind ≠ .condition) → (∀ y ∈ rest.head?, y.kind ≠ .window) →
    s.clauseSpan? .source = some (start, stop) →
    ∀ (keyword : KeywordToken "WHERE") (predicate : BalancedTokens), Quiet .condition predicate.1 →
      ∃ q' : AuthorSelect, q'.Clear ∧
        q'.sections.map (·.kind) = (first ++ [x]).map (·.kind) ++ .condition :: rest.map (·.kind) ∧
        q'.tokens = s.tokens.take stop ++ (keyword.1 :: (predicate.1 ++ s.tokens.drop stop))

theorem takeWhile_window {rest : List Section} (h : ∀ y ∈ rest.head?, y.kind ≠ .window) :
    rest.takeWhile (·.kind == .window) = [] := by
  cases rest with
  | nil => rfl
  | cons x rest => exact List.takeWhile_cons_of_neg (by simpa using h x rfl)

variable {s : Statement} {q : AuthorSelect}

theorem clauseSpan?_section (hclauses : s.clauses = q.clauses) (htokens : s.tokens = q.tokens)
    {first rest : List Section} {x : Section} {kind : ClauseKind}
    (hsections : q.sections = first ++ x :: rest) (hkind : x.kind.clause? = some kind) :
    s.clauseSpan? kind =
      some (q.place first, q.place (first ++ x :: rest.takeWhile (·.kind == .window))) := by
  have hlength : s.tokens.length = q.lead.1.length + (sectionTokens (first ++ x :: rest)).length := by
    rw [htokens, AuthorSelect.tokens, hsections, List.length_append]
  have hne : ∀ y ∈ first, y.kind ≠ x.kind := by
    intro y hy heq
    have hlt := (AuthorSelect.kind_lt hsections).1 y hy
    rw [heq] at hlt
    exact lt_irrefl _ hlt
  unfold clauseSpan?
  rw [hlength, hclauses, AuthorSelect.clauses, hsections]
  exact spanIn?_clausesFrom hkind hne q.lead.1.length

/-- The tokens before, inside and behind a section. -/
theorem tokens_around (htokens : s.tokens = q.tokens) {first rest : List Section} {x : Section}
    (hsections : q.sections = first ++ x :: rest) :
    s.tokens.take (q.place first + 1) = q.lead.1 ++ sectionTokens first ++ [x.keyword] ∧
      s.tokens.take (q.place (first ++ [x])) = q.lead.1 ++ sectionTokens first ++ x.tokens ∧
        (s.tokens.take (q.place (first ++ [x]))).drop (q.place first + 1) = x.body ∧
          s.tokens.drop (q.place (first ++ [x])) = sectionTokens rest := by
  have hstart : q.place first + 1 = (q.lead.1 ++ sectionTokens first ++ [x.keyword]).length := by
    simp only [AuthorSelect.place, List.length_append, List.length_singleton]
  have hstop : q.place (first ++ [x]) = (q.lead.1 ++ sectionTokens first ++ x.tokens).length := by
    simp only [AuthorSelect.place, sectionTokens, List.flatMap_append, List.flatMap_cons,
      List.flatMap_nil, List.append_nil, List.length_append]
    omega
  have hsplit : s.tokens = q.lead.1 ++ sectionTokens first ++ x.tokens ++ sectionTokens rest := by
    rw [htokens, AuthorSelect.tokens, hsections]
    simp [sectionTokens]
  have htake : s.tokens.take (q.place (first ++ [x])) =
      q.lead.1 ++ sectionTokens first ++ x.tokens := by
    rw [hsplit, List.take_left' hstop.symm]
  have hkeyword : q.lead.1 ++ sectionTokens first ++ x.tokens =
      q.lead.1 ++ sectionTokens first ++ [x.keyword] ++ x.body := by
    simp [Section.tokens]
  refine ⟨?_, htake, ?_, ?_⟩
  · rw [hsplit, hkeyword, List.append_assoc _ x.body, List.take_left' hstart.symm]
  · rw [htake, hkeyword, List.drop_left' hstart.symm]
  · rw [hsplit, List.drop_left' hstop.symm]

theorem mirrors (hclauses : s.clauses = q.clauses) (htokens : s.tokens = q.tokens)
    (hclear : q.Clear) : s.Mirrors q where
  present := hasClause_iff hclauses
  span first x rest kind hsections hkind := clauseSpan?_section hclauses htokens hsections hkind
  wrapped first x rest start stop hsections hkind hwindow hspan predicate hquiet := by
    rw [clauseSpan?_section hclauses htokens hsections (by rw [hkind]; rfl),
      takeWhile_window hwindow] at hspan
    obtain ⟨rfl, rfl⟩ := Prod.mk.inj (Option.some.inj hspan)
    obtain ⟨q', hclear', hlead, hsections', hkinds⟩ :=
      AuthorSelect.exists_wrapped hsections hkind hclear predicate hquiet
    obtain ⟨hbefore, -, hbody, hbehind⟩ := tokens_around htokens hsections
    refine ⟨q', hclear', hkinds, ?_⟩
    rw [AuthorSelect.tokens, hlead, hsections', hbefore, hbody, hbehind]
    simp [sectionTokens, Section.tokens, AuthorSelect.wrapSection]
  extended first x rest start stop hsections hkind hnone hwindow hspan keyword predicate hquiet := by
    rw [clauseSpan?_section hclauses htokens hsections (by rw [hkind]; rfl),
      takeWhile_window hwindow] at hspan
    obtain ⟨rfl, rfl⟩ := Prod.mk.inj (Option.some.inj hspan)
    obtain ⟨q', hclear', hlead, hsections'⟩ :=
      AuthorSelect.exists_extended hsections hkind hnone hwindow hclear keyword predicate hquiet
    obtain ⟨-, hbefore, -, hbehind⟩ := tokens_around htokens hsections
    refine ⟨q', hclear', ?_, ?_⟩
    · rw [hsections']
      simp [AuthorSelect.conditionSection]
    · rw [AuthorSelect.tokens, hlead, hsections', hbefore, hbehind]
      simp [sectionTokens, Section.tokens, AuthorSelect.conditionSection]

/-- The clauses of a statement are the sections of its SELECT, and it combines no SELECTs, exactly when
no word inside a section is taken for a clause. -/
theorem parse_sections (sql : String) (d : Dialect) (q : AuthorSelect)
    (h : (Token.tokenize d (Text.trim sql)).map dropTerminator = .ok q.tokens) :
    ∃ s, parse sql d = .ok s ∧ s.tokens = q.tokens ∧
      ((s.clauses = q.clauses ∧ s.setOperation = false) ↔ q.Clear) ∧
      (q.Clear → s.Mirrors q) := by
  obtain ⟨tokens, htokens, hq⟩ := map_eq_ok.1 h
  obtain ⟨final, hrun, hclear⟩ := q.exists_run
  obtain ⟨word, -, hword⟩ := q.select.opens
  have hsolid : q.tokens.all Token.isTrivia = false := by
    rw [List.all_eq_false]
    refine ⟨q.select.keyword, ?_, ?_⟩
    · simp [AuthorSelect.tokens, AuthorSelect.sections, sectionTokens, Section.tokens]
    · obtain ⟨value, hvalue, -⟩ := isKeyword_iff.1 hword
      simp [hvalue, Token.isTrivia]
  refine ⟨⟨d, q.tokens, final.found.reverse, final.setOperation, []⟩, ?_, rfl, hclear, fun hq => ?_⟩
  · unfold parse
    rw [htokens]
    dsimp only
    rw [hq, ofTokens, hsolid, hrun]
    rfl
  · exact mirrors (hclear.2 hq).1 rfl hq

/-- A SELECT with a placeholder of the given name in its condition. -/
def selectWhere (name : String) : AuthorSelect where
  lead := Gap.empty
  select :=
    { kind := .select
      keyword := .word "SELECT" none
      body := [.blank .space, .word "u" none, .punctuation .period, .word "id" none, .blank .space]
      opens := SectionKind.opens_word (by decide)
      takesBy := by decide
      balanced := .of_forall (by decide) }
  source :=
    { kind := .source
      keyword := .word "FROM" none
      body := [.blank .space, .punctuation .openBrace, .word "user" none, .punctuation .closeBrace,
        .blank .space, .word "u" none, .blank .space]
      opens := SectionKind.opens_word (by decide)
      takesBy := by decide
      balanced := .of_forall (by decide) }
  others :=
    [{ kind := .condition
       keyword := .word "WHERE" none
       body := [.blank .space, .word "u" none, .punctuation .period, .word "a" none, .blank .space,
         .operator "=", .blank .space, .punctuation .colon, .word name none]
       opens := SectionKind.opens_word (by decide)
       takesBy := fun h => Bool.noConfusion h
       balanced := .of_forall (by simp) }]
  isSelect := rfl
  isSource := rfl
  ordered := by simp [SectionKind.rank]

theorem parse_sections_where : ∃ s,
    parse "SELECT u.id FROM {user} u WHERE u.a = :city" .sqlite = .ok s ∧
      s.Mirrors (selectWhere "city") ∧ s.clauseSpan? .condition = some (14, 24) := by
  obtain ⟨s, hs, -, -, hmirrors⟩ := parse_sections "SELECT u.id FROM {user} u WHERE u.a = :city"
    .sqlite (selectWhere "city") (by decide +kernel)
  have hs' := hmirrors (by decide +kernel)
  refine ⟨s, hs, hs', ?_⟩
  exact hs'.span [(selectWhere "city").select, (selectWhere "city").source] _ [] _ rfl rfl

/-- The name of a placeholder that is a clause word ends the condition before its end. -/
theorem parse_sections_limit : ∃ s,
    parse "SELECT u.id FROM {user} u WHERE u.a = :limit" .sqlite = .ok s ∧
      s.tokens = (selectWhere "limit").tokens ∧
      s.hasClause .limit = true ∧
      (∀ x ∈ (selectWhere "limit").sections, x.kind.clause? ≠ some .limit) ∧
      s.clauseSpan? .condition = some (14, 23) ∧
      (selectWhere "limit").place (selectWhere "limit").sections = 24 := by
  obtain ⟨s, hs, htokens, -, -⟩ := parse_sections "SELECT u.id FROM {user} u WHERE u.a = :limit"
    .sqlite (selectWhere "limit") (by decide +kernel)
  have hread : ∀ s, parse "SELECT u.id FROM {user} u WHERE u.a = :limit" .sqlite = .ok s →
      s.hasClause .limit = true ∧ s.clauseSpan? .condition = some (14, 23) := by
    decide +kernel
  obtain ⟨hlimit, hspan⟩ := hread s hs
  exact ⟨s, hs, htokens, hlimit, by decide, hspan, by decide⟩

end Statement

end ReportSql
