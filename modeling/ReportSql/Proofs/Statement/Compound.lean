import ReportSql.Proofs.Statement.Added
import ReportSql.Proofs.Statement.SectionSpans

/-!
# SELECTs with set operators between them

A statement may combine several SELECTs. An ORDER BY and a LIMIT behind the last one
belong to all of them. The scan for clauses notes nothing behind the first set
operator: it finds the sections of the first SELECT, and the last sections of the
statement only where there is nothing combined.

## Main definitions

* `Part`, `OuterLevel` - what stands at the outermost level of a statement
* `CompoundSelect` - SELECTs with set operators between them
* `CompoundSelect.noted` - the sections that the scan for clauses may find

## Main results

* `OuterLevel.tokens_expanded`, `OuterLevel.tokens_ended` - printing part by part
* `CompoundSelect.clauses_eq` - the clauses that are found
-/

namespace ReportSql

open Token Statement

/-! ## Parts -/

/-- A set operator with what stands behind it: the word ALL, or a whole SELECT in parentheses. -/
structure SetOperator where
  keyword : Token
  body : List Token
  combines : ∃ word, isSetOperation word = true ∧ keyword.isKeyword word = true
  balanced : Balanced body

/-- What stands at the outermost level of a statement. -/
inductive Part where
  | clause (x : Section)
  | operator (x : SetOperator)

/-- A way to print tokens that leaves the parentheses in place, and a BY at the start. -/
structure Rewriting where
  apply : List Token → List Token
  parens_eq : ∀ tokens, parens (apply tokens) = parens tokens
  startsBy : ∀ tokens, (firstSignificant? tokens).any (·.isKeyword "BY") = true →
    (firstSignificant? (apply tokens)).any (·.isKeyword "BY") = true

namespace Part

/-- The first word of a part. -/
def keyword : Part → Token
  | .clause x => x.keyword
  | .operator x => x.keyword

/-- What stands behind the first word of a part. -/
def body : Part → List Token
  | .clause x => x.body
  | .operator x => x.body

/-- The tokens of a part. -/
def tokens (p : Part) : List Token :=
  p.keyword :: p.body

/-- The kind of section that a part is. -/
def kind? : Part → Option SectionKind
  | .clause x => some x.kind
  | .operator _ => none

/-- A part with its body printed in some way. -/
def rewrite (f : Rewriting) : Part → Part
  | .clause x => .clause
    { x with
      body := f.apply x.body
      takesBy := fun h => f.startsBy _ (x.takesBy h)
      balanced := x.balanced.congr (f.parens_eq _) }
  | .operator x => .operator
    { x with
      body := f.apply x.body
      balanced := x.balanced.congr (f.parens_eq _) }

@[simp] theorem kind?_rewrite (f : Rewriting) (p : Part) : (p.rewrite f).kind? = p.kind? := by
  cases p <;> rfl

@[simp] theorem tokens_rewrite (f : Rewriting) (p : Part) :
    (p.rewrite f).tokens = p.keyword :: f.apply p.body := by
  cases p <;> rfl

theorem exists_keyword (p : Part) : ∃ word, p.keyword.isKeyword word = true ∧
    word.toList ≠ [] ∧ ∀ c ∈ word.toList, Text.isBlank c = false := by
  cases p with
  | clause x =>
    obtain ⟨word, hmem, hword⟩ := x.opens
    have hall : ∀ kind : SectionKind, ∀ word ∈ kind.words,
        word.toList ≠ [] ∧ ∀ c ∈ word.toList, Text.isBlank c = false := by
      intro kind
      cases kind <;> decide
    exact ⟨word, hword, hall _ _ hmem⟩
  | operator x =>
    obtain ⟨word, hset, hword⟩ := x.combines
    have hall : ∀ word ∈ ["UNION", "INTERSECT", "EXCEPT"],
        word.toList ≠ [] ∧ ∀ c ∈ word.toList, Text.isBlank c = false := by decide
    exact ⟨word, hword, hall _ (List.contains_iff_mem.1 hset)⟩

theorem blankFree_keyword (p : Part) : p.keyword.BlankFree := by
  obtain ⟨word, hword, hne, hblank⟩ := p.exists_keyword
  exact blankFree_of_keyword hword hne hblank

theorem balanced (p : Part) : Balanced p.tokens := by
  obtain ⟨word, hword, -⟩ := p.exists_keyword
  refine .keyword hword ?_
  cases p with
  | clause x => exact x.balanced
  | operator x => exact x.balanced

end Part

/-- Tokens behind which a word is a word of its own, and no name in braces or behind a colon. -/
def EndsWhole (tokens : List Token) : Prop :=
  ∀ t ∈ tokens.getLast?, t ≠ .punctuation .colon ∧ t ≠ .punctuation .openBrace

instance (tokens : List Token) : Decidable (EndsWhole tokens) :=
  inferInstanceAs (Decidable (∀ _ ∈ _, _))

theorem endsWhole_gap (gap : Gap) : EndsWhole gap.1 := by
  intro t ht
  have htrivia := gap.2 t (List.mem_of_getLast? ht)
  constructor <;> rintro rfl <;> exact Bool.noConfusion htrivia

/-- The outermost level of a statement: blanks and comments, and the parts behind them. -/
structure OuterLevel where
  lead : Gap
  parts : List Part

namespace OuterLevel

/-- The tokens of a statement. -/
def tokens (o : OuterLevel) : List Token :=
  o.lead.1 ++ o.parts.flatMap Part.tokens

/-- The kinds of its sections. -/
def kinds (o : OuterLevel) : List SectionKind :=
  o.parts.filterMap Part.kind?

theorem balanced (o : OuterLevel) : Balanced o.tokens :=
  (balanced_gap o.lead).append (.flatMap Part.balanced o.parts)

/-! ## Printing -/

theorem startsBy_expand (d : Dialect) (tablePrefix : String) (tokens : List Token)
    (h : (firstSignificant? tokens).any (·.isKeyword "BY") = true) :
    (firstSignificant? (expand d tablePrefix tokens)).any (·.isKeyword "BY") = true := by
  unfold firstSignificant? at h ⊢
  rw [skipTrivia_expand]
  cases hskip : skipTrivia tokens with
  | nil => rw [hskip] at h; exact Bool.noConfusion h
  | cons t rest =>
    rw [hskip] at h
    obtain ⟨value, rfl, -⟩ := isKeyword_iff.1 h
    rw [expand_word]
    exact h

/-- Names in braces and placeholders printed. -/
def expansion (d : Dialect) (tablePrefix : String) : Rewriting :=
  ⟨expand d tablePrefix, fun _ => Outline.parens_expand _, startsBy_expand d tablePrefix⟩

/-- A statement with its names printed. -/
def expanded (d : Dialect) (tablePrefix : String) (o : OuterLevel) : OuterLevel :=
  { o with parts := o.parts.map (.rewrite (expansion d tablePrefix)) }

@[simp] theorem kinds_expanded (d : Dialect) (tablePrefix : String) (o : OuterLevel) :
    (o.expanded d tablePrefix).kinds = o.kinds := by
  simp [kinds, expanded, List.filterMap_map]

theorem whole_parts {first : List Token} (h : EndsWhole first) (parts : List Part) :
    Whole first (parts.flatMap Part.tokens) := by
  refine whole_of_getLast? h ?_
  cases parts with
  | nil => simp
  | cons p rest =>
    obtain ⟨word, hword, -⟩ := p.exists_keyword
    intro hhead
    exact isKeyword_ne_punctuation hword _ (Option.some.inj hhead)

theorem expand_flatMap {d : Dialect} {tablePrefix : String} {parts : List Part}
    (h : ∀ p ∈ parts, EndsWhole p.body) : expand d tablePrefix (parts.flatMap Part.tokens) =
      (parts.map (.rewrite (expansion d tablePrefix))).flatMap Part.tokens := by
  induction parts with
  | nil => rfl
  | cons p rest ih =>
    obtain ⟨hp, hrest⟩ := List.forall_mem_cons.1 h
    obtain ⟨word, hword, -⟩ := p.exists_keyword
    rw [List.flatMap_cons, List.map_cons, List.flatMap_cons, Part.tokens, List.cons_append,
      expand_cons (isKeyword_ne_punctuation hword _) (isKeyword_ne_punctuation hword _),
      expand_append (whole_parts hp rest), ih hrest, Part.tokens_rewrite]
    rfl

theorem expand_gap {d : Dialect} {tablePrefix : String} (gap : Gap) :
    expand d tablePrefix gap.1 = gap.1 := by
  obtain ⟨tokens, htrivia⟩ := gap
  induction tokens with
  | nil => rfl
  | cons t rest ih =>
    obtain ⟨ht, hrest⟩ := List.forall_mem_cons.1 htrivia
    have hrest := ih hrest
    dsimp only at hrest ⊢
    rw [expand_cons, hrest] <;> rintro rfl <;> exact Bool.noConfusion ht

theorem endsWhole_tokens {p : Part} (h : EndsWhole p.body) : EndsWhole p.tokens := by
  obtain ⟨word, hword, -⟩ := p.exists_keyword
  intro t ht
  rw [Part.tokens, List.getLast?_cons] at ht
  obtain rfl := Option.some.inj ht
  cases hlast : p.body.getLast? with
  | none => exact ⟨isKeyword_ne_punctuation hword _, isKeyword_ne_punctuation hword _⟩
  | some t => exact h t hlast

theorem whole_tokens {o : OuterLevel} (h : ∀ p ∈ o.parts, EndsWhole p.body) (rest : List Part) :
    Whole o.tokens (rest.flatMap Part.tokens) := by
  have hparts : ∀ parts : List Part, (∀ p ∈ parts, EndsWhole p.body) →
      Whole (parts.flatMap Part.tokens) (rest.flatMap Part.tokens) := by
    intro parts hparts
    induction parts with
    | nil => exact whole_nil _
    | cons p parts ih =>
      obtain ⟨hp, hparts⟩ := List.forall_mem_cons.1 hparts
      have hnext := whole_parts (endsWhole_tokens hp) (parts ++ rest)
      rw [List.flatMap_append] at hnext
      exact hnext.append (ih hparts)
  have hlead := whole_parts (endsWhole_gap o.lead) (o.parts ++ rest)
  rw [List.flatMap_append] at hlead
  exact hlead.append (hparts o.parts h)

/-- A statement is printed part by part. -/
theorem tokens_expanded {d : Dialect} {tablePrefix : String} {o : OuterLevel}
    (h : ∀ p ∈ o.parts, EndsWhole p.body) :
    expand d tablePrefix o.tokens = (o.expanded d tablePrefix).tokens := by
  unfold tokens
  rw [expand_append (whole_parts (endsWhole_gap o.lead) o.parts), expand_gap, expand_flatMap h]
  rfl

/-! ## The end of a printed text -/

theorem startsBy_ending (gap : Gap) (tokens : List Token)
    (h : (firstSignificant? tokens).any (·.isKeyword "BY") = true) :
    (firstSignificant? (withLineBreak (trimBack tokens) ++ gap.1)).any (·.isKeyword "BY") = true := by
  obtain ⟨t, ht, hby⟩ := (Option.any_eq_true _ _).1 h
  have hfree : t.BlankFree := blankFree_of_keyword hby (by decide) (by decide)
  have hended := firstSignificant?_trimBack hfree ht
  rw [← firstSignificant?_withLineBreak] at hended
  rw [firstSignificant?_append hended]
  exact hby

theorem parens_gap (gap : Gap) : parens gap.1 = [] := by
  refine List.filter_eq_nil_iff.2 fun t ht => ?_
  have htrivia := gap.2 t ht
  cases t <;> simp_all [isTrivia, isParen]

/-- A line break instead of the blanks at the end, and a gap behind it. -/
def ending (gap : Gap) : Rewriting where
  apply tokens := withLineBreak (trimBack tokens) ++ gap.1
  parens_eq tokens := by
    rw [parens_append, parens_withLineBreak, parens_trimBack, parens_gap, List.append_nil]
  startsBy := startsBy_ending gap

/-- Parts that end with a line break and a gap. -/
def endParts (gap : Gap) : List Part → List Part
  | [] => []
  | [p] => [p.rewrite (ending gap)]
  | p :: rest => p :: endParts gap rest

/-- A statement that ends with a line break and a gap. -/
def ended (gap : Gap) (o : OuterLevel) : OuterLevel :=
  { o with parts := endParts gap o.parts }

@[simp] theorem kinds_ended (gap : Gap) (o : OuterLevel) : (o.ended gap).kinds = o.kinds := by
  have hparts : ∀ parts : List Part,
      (endParts gap parts).filterMap Part.kind? = parts.filterMap Part.kind? := by
    intro parts
    fun_induction endParts gap parts with
    | case1 => rfl
    | case2 p => simp [List.filterMap_cons]
    | case3 p rest _ ih => rw [List.filterMap_cons, List.filterMap_cons, ih]
  exact hparts o.parts

theorem tokens_endParts (gap : Gap) (first : List Token) {parts : List Part} (h : parts ≠ []) :
    first ++ (endParts gap parts).flatMap Part.tokens =
      withLineBreak (trimBack (first ++ parts.flatMap Part.tokens)) ++ gap.1 := by
  fun_induction endParts gap parts generalizing first with
  | case1 => exact absurd rfl h
  | case2 p =>
    -- the keyword of the last part is no blank, so that nothing before it is touched
    have hfree := p.blankFree_keyword
    obtain ⟨word, hword, -⟩ := p.exists_keyword
    have hsolid : p.keyword.isTrivia = false := by
      obtain ⟨value, hvalue, -⟩ := isKeyword_iff.1 hword
      rw [hvalue]
      rfl
    rw [List.flatMap_singleton, List.flatMap_singleton, Part.tokens_rewrite, Part.tokens,
      trimBack_append first (dropTrailingBlanks_ne_nil hfree List.mem_cons_self), hfree.trimBack_cons,
      withLineBreak_append first (List.cons_ne_nil _ _), withLineBreak_cons hsolid, List.append_assoc]
    rfl
  | case3 p rest hne ih =>
    rw [List.flatMap_cons, List.flatMap_cons, ← List.append_assoc, ← List.append_assoc]
    exact ih _ fun hnil => hne hnil

theorem tokens_ended (gap : Gap) {o : OuterLevel} (h : o.parts ≠ []) :
    (o.ended gap).tokens = withLineBreak (trimBack o.tokens) ++ gap.1 :=
  tokens_endParts gap o.lead.1 h

end OuterLevel

/-! ## Compound SELECTs -/

/-- The sections of one SELECT, in their order. -/
structure SelectCore where
  sections : List Section
  ordered : sections.Pairwise fun x y => x.kind.rank < y.kind.rank
  inner : ∀ x ∈ sections, x.kind.rank < SectionKind.orderBy.rank

/-- A further SELECT: the set operator before it, and its sections unless it stands in parentheses. -/
structure Member where
  operator : SetOperator
  core : SelectCore

/-- The parts of a further SELECT. -/
def Member.parts (m : Member) : List Part :=
  .operator m.operator :: m.core.sections.map .clause

/-- A statement as its author writes it: a SELECT, further ones behind set operators, and the ORDER BY
and the LIMIT of all of them. -/
structure CompoundSelect where
  lead : Gap
  first : SelectCore
  members : List Member
  last : List Section
  isSelect : first.sections.head?.map (·.kind) = some .select
  ordered : last.Pairwise fun x y => x.kind.rank < y.kind.rank
  outer : ∀ x ∈ last, SectionKind.orderBy.rank ≤ x.kind.rank

namespace CompoundSelect

/-- The SELECTs of a statement without the ORDER BY and the LIMIT of all of them. -/
def combined (q : CompoundSelect) : OuterLevel :=
  ⟨q.lead, q.first.sections.map .clause ++ q.members.flatMap Member.parts⟩

/-- The outermost level of a statement. -/
def outerLevel (q : CompoundSelect) : OuterLevel :=
  ⟨q.lead, q.combined.parts ++ q.last.map .clause⟩

/-- The tokens of a statement. -/
def tokens (q : CompoundSelect) : List Token :=
  q.outerLevel.tokens

/-- The sections that a scan may find. The last ones are the first SELECT's where it is the only one. -/
def noted (q : CompoundSelect) : List Section :=
  q.first.sections ++ if q.members.isEmpty then q.last else []

/-- What stands behind the sections that a scan may find. -/
def behind (q : CompoundSelect) : List Token :=
  if q.members.isEmpty then []
  else q.members.flatMap (fun m => m.parts.flatMap Part.tokens) ++ sectionTokens q.last

/-- No word inside a section is taken for a clause up to the first set operator, and no keyword for a
name. -/
structure Clear (q : CompoundSelect) : Prop where
  quiet : ClearFrom .select q.noted
  whole : ∀ p ∈ q.outerLevel.parts, EndsWhole p.body

theorem sections_eq (q : CompoundSelect) :
    ∃ select others, q.first.sections = select :: others ∧ select.kind = .select := by
  have hselect := q.isSelect
  cases hsections : q.first.sections with
  | nil => rw [hsections] at hselect; exact absurd hselect (by simp)
  | cons select others =>
    rw [hsections] at hselect
    exact ⟨select, others, rfl, Option.some.inj hselect⟩

theorem parts_ne_nil (q : CompoundSelect) : q.combined.parts ≠ [] ∧ q.outerLevel.parts ≠ [] := by
  obtain ⟨select, others, hsections, -⟩ := q.sections_eq
  simp [outerLevel, combined, hsections]

theorem flatMap_clause (sections : List Section) :
    (sections.map Part.clause).flatMap Part.tokens = sectionTokens sections := by
  rw [List.flatMap_map]
  rfl

theorem noted_ordered (q : CompoundSelect) : q.noted.Pairwise fun x y => x.kind.rank < y.kind.rank := by
  unfold noted
  split
  · refine List.pairwise_append.2 ⟨q.first.ordered, q.ordered, fun x hx y hy => ?_⟩
    exact (q.first.inner x hx).trans_le (q.outer y hy)
  · rw [List.append_nil]
    exact q.first.ordered

theorem tokens_eq (q : CompoundSelect) : q.tokens = q.lead.1 ++ (sectionTokens q.noted ++ q.behind) := by
  unfold tokens OuterLevel.tokens outerLevel combined noted behind
  rw [List.flatMap_append, List.flatMap_append, flatMap_clause, flatMap_clause, List.flatMap_assoc]
  cases q.members with
  | nil => simp [sectionTokens]
  | cons m more => simp

end CompoundSelect

/-! ## The scan for clauses -/

namespace Statement

/-- Sections in which no word is taken for a clause are read up to what stands behind them. -/
theorem ClauseScan.Inside.run?_clear {scan : ClauseScan} {current : ClauseKind}
    (h : scan.Inside current) {sections : List Section}
    (hselect : ∀ x ∈ sections, x.kind ≠ .select)
    (hother : ∀ x ∈ sections, x.kind.clause? ≠ some current)
    (hordered : sections.Pairwise fun x y => x.kind.rank < y.kind.rank)
    (hclear : ClearFrom current sections) {tail : List Token} (htail : EndsBody tail) (position : Nat) :
    ∃ final, scan.run? position (sectionTokens sections ++ tail) =
        final.run? (position + (sectionTokens sections).length) tail ∧
      final.depth = 0 ∧ scan.Finds final position sections := by
  induction sections generalizing scan current position with
  | nil => exact ⟨scan, rfl, h.depth, (List.append_nil _).symm, h.single⟩
  | cons x rest ih =>
    obtain ⟨hx, hselect⟩ := List.forall_mem_cons.1 hselect
    obtain ⟨hxOther, hother⟩ := List.forall_mem_cons.1 hother
    obtain ⟨hlater, hordered⟩ := List.pairwise_cons.1 hordered
    obtain ⟨hquiet, hclear⟩ := hclear
    have hbehind := h.behind x position
    obtain ⟨final, hrun, hdepth, hfinds⟩ := ih hbehind hselect (clause?_ne_latest hother hlater) hordered
      hclear (position + 1 + x.body.length)
    refine ⟨final, ?_, hdepth, ClauseScan.finds_behind.1 hfinds⟩
    have hlength : position + (sectionTokens (x :: rest)).length =
        position + 1 + x.body.length + (sectionTokens rest).length := by
      rw [sectionTokens_cons, List.length_cons, List.length_append]
      omega
    rw [hlength, sectionTokens_cons, List.cons_append, List.append_assoc, h.run?_keyword hx hxOther,
      hbehind.run?_quiet x.balanced (htail.behind rest) hquiet, hrun]

/-- A set operator is noted, and no clause behind it. -/
theorem ClauseScan.run?_operator {scan final : ClauseScan} (hdepth : scan.depth = 0) (x : SetOperator)
    {rest : List Token} (hrest : Balanced rest) (position : Nat)
    (hrun : scan.run? position (x.keyword :: rest) = some final) : final.found = scan.found := by
  obtain ⟨word, hset, hword⟩ := x.combines
  have hunquoted : x.keyword.unquotedWord? = some word := by simpa [isKeyword] using hword
  have hnone : ∀ word ∈ ["UNION", "INTERSECT", "EXCEPT"], ∀ noneFound,
      clauseOf? noneFound word rest = none := by
    simp [clauseOf?]
  have hstep := ClauseScan.step?_outer hdepth (isKeyword_ne_punctuation hword _)
    (isKeyword_ne_punctuation hword _) position rest
  rw [ClauseScan.noteToken, hunquoted, Option.elim_some, ClauseScan.noteWord] at hstep
  dsimp only at hstep
  rw [hnone word (List.contains_iff_mem.1 hset), hset, Bool.or_true] at hstep
  -- from here on the set operation is noted, and with it no clause
  obtain ⟨last, hlast, hkeeps⟩ :=
    @ClauseScan.run?_keeps _ hrest ⟨scan.depth, scan.found, true⟩ hdepth (position + 1) []
  rw [ClauseScan.run?_cons hstep, ← List.append_nil rest, hlast, ClauseScan.run?,
    if_pos (hkeeps.depth.trans hdepth)] at hrun
  obtain rfl := Option.some.inj hrun
  exact hkeeps.fixed rfl

end Statement

namespace CompoundSelect

variable {q : CompoundSelect} {s : Statement} {sql : String} {d : Dialect}

/-- Behind the sections that may be found stands nothing, or a set operator. -/
theorem behind_cases (q : CompoundSelect) : q.behind = [] ∨
    ∃ (x : SetOperator) (rest : List Token), q.behind = x.keyword :: rest ∧ Balanced rest := by
  unfold behind
  cases q.members with
  | nil => exact .inl rfl
  | cons m more =>
    obtain ⟨word, -, hword⟩ := m.operator.combines
    have hbalanced : Balanced ((m :: more).flatMap (fun m => m.parts.flatMap Part.tokens) ++
        sectionTokens q.last) :=
      .append (.flatMap (fun m : Member => .flatMap Part.balanced m.parts) _)
        (balanced_sectionTokens q.last)
    exact .inr ⟨m.operator, _, rfl, hbalanced.tail (isKeyword_ne_punctuation hword _)⟩

theorem endsBody_behind (q : CompoundSelect) : EndsBody q.behind := by
  obtain hnil | ⟨x, rest, hbehind, -⟩ := q.behind_cases
  · rw [hnil]
    rfl
  · obtain ⟨word, hset, hword⟩ := x.combines
    have hne : word ≠ "BY" := by
      rintro rfl
      exact absurd hset (by decide)
    unfold EndsBody
    rw [hbehind, firstSignificant?_keyword hword]
    exact isKeyword_unique hword hne

/-- The clauses of a statement are the sections before the first set operator. -/
theorem clauses_eq (hparse : parse sql d = .ok s) (htokens : s.tokens = q.tokens) (hclear : q.Clear) :
    s.clauses = clausesFrom q.lead.1.length q.noted := by
  obtain ⟨-, -, -, -, final, hrun, hclauses, -⟩ := parse_eq_ok hparse
  obtain ⟨select, others, hsections, hkind⟩ := q.sections_eq
  obtain ⟨later, hnoted⟩ : ∃ later, q.noted = select :: later := by
    rw [noted, hsections]
    exact ⟨_, rfl⟩
  have hordered := q.noted_ordered
  have hquiet := hclear.quiet
  rw [hnoted] at hordered hquiet
  obtain ⟨hlater, hordered⟩ := List.pairwise_cons.1 hordered
  have hselect : ∀ x ∈ later, x.kind ≠ .select := by
    intro x hx hsame
    have hlt := hlater x hx
    rw [hsame] at hlt
    exact absurd hlt (Nat.not_lt_zero _)
  have hother : ∀ x ∈ later, x.kind.clause? ≠ some .select :=
    fun x hx hclause => hselect x hx (SectionKind.clause?_injective hclause rfl)
  rw [ClearFrom, hkind] at hquiet
  obtain ⟨hbody, hquiet⟩ := hquiet
  -- the word SELECT with its body, the sections after it, and what stands behind them
  obtain ⟨hstart, hinside⟩ := ClauseScan.run?_select q.lead hkind (sectionTokens later ++ q.behind)
  obtain ⟨next, hnext, hdepth, hfinds⟩ := hinside.run?_clear hselect hother hordered hquiet
    q.endsBody_behind (q.lead.1.length + 1 + select.body.length)
  rw [htokens, q.tokens_eq, hnoted, sectionTokens_cons, List.cons_append, List.append_assoc, hstart,
    hinside.run?_quiet select.balanced (q.endsBody_behind.behind later) hbody, hnext] at hrun
  have hfound : final.found = next.found := by
    obtain hnil | ⟨x, rest, hbehind, hrest⟩ := q.behind_cases
    · rw [hnil, ClauseScan.run?, if_pos hdepth] at hrun
      rw [← Option.some.inj hrun]
    · rw [hbehind] at hrun
      exact ClauseScan.run?_operator hdepth x hrest _ hrun
  rw [hclauses, hfound, hnoted]
  exact (ClauseScan.finds_behind.1 hfinds).1

end CompoundSelect

end ReportSql
