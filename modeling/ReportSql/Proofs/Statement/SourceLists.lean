import ReportSql.Proofs.Statement.Clauses
import ReportSql.Proofs.Statement.Reread

/-!
# Where table lists start

A FROM starts a table list in the parentheses in which a SELECT stands before it,
unless the word right before it is DISTINCT: there FROM is taken for the end of a
distinctness test. Whatever a select list holds apart from that, the tables after
its FROM are found.

## Main definitions

* `Statement.followsDistinct`, `Statement.comparesDistinct` - the words right before FROM
* `Statement.Reported` - a table reference that a scan did not pass over

## Main results

* `Statement.selectsAfter_iff` - what a scan knows of the SELECTs of a statement
* `Statement.parse_readsSource` - which FROM of a statement starts a table list
-/

namespace ReportSql

open Token

namespace Statement

/-- What a scan knows of the SELECTs of a statement: one flag for each open parenthesis, and whether a
SELECT stands in the innermost one. -/
theorem selectsAfter_iff {depth : Nat} {before : List Token} (h : Open depth before) :
    ∃ met outer, selectsAfter [false] before = met :: outer ∧ outer.length = depth ∧
      (met = true ↔ SelectBefore before) := by
  induction h with
  | balanced h =>
    obtain ⟨met, hmet, hiff⟩ := selectsAfter_balanced h false []
    exact ⟨met, [], hmet, rfl, by simpa using hiff⟩
  | @opened depth first rest _ hrest ih =>
    obtain ⟨met, outer, hfirst, hlength, -⟩ := ih
    obtain ⟨met', hmet', hiff⟩ := selectsAfter_balanced hrest false (met :: outer)
    refine ⟨met', met :: outer, ?_, by simp [hlength], ?_⟩
    · have hopen : nextSelects (met :: outer) (.punctuation .openParen) = false :: met :: outer := rfl
      rw [selectsAfter_append, hfirst, selectsAfter, List.foldl_cons, hopen]
      exact hmet'
    · rw [hiff, ← List.singleton_append, ← List.append_assoc, selectBefore_append hrest]
      simp [not_selectBefore_openParen]

/-! ## The lists of a scan -/

variable {selects : List Bool} {previous : Option Token}

/-- A table list stands behind a token of the text. -/
theorem exists_before_of_mem_tableLists {tokens : List Token} {list : Nat × List Token}
    (h : list ∈ tableLists selects previous tokens) : ∃ before t, tokens = before ++ t :: list.2 := by
  induction tokens generalizing selects previous with
  | nil => exact absurd h List.not_mem_nil
  | cons t rest ih =>
    rw [tableLists] at h
    rcases List.mem_append.1 h with h | h
    · split at h
      · rw [List.mem_singleton.1 h]
        exact ⟨[], t, rfl⟩
      · exact absurd h List.not_mem_nil
    · obtain ⟨before, t', rfl⟩ := ih h
      exact ⟨t :: before, t', rfl⟩

theorem length_lt_of_mem_tableLists {tokens : List Token} {list : Nat × List Token}
    (h : list ∈ tableLists selects previous tokens) : list.2.length < tokens.length := by
  obtain ⟨before, t, rfl⟩ := exists_before_of_mem_tableLists h
  rw [List.length_append, List.length_cons]
  omega

/-- A table list starts behind a token exactly when the token introduces it. -/
theorem mem_tableLists_append {before after : List Token} {t : Token} {depth : Nat} :
    (depth, after) ∈ tableLists selects previous (before ++ t :: after) ↔
      introduces (selectsAfter selects before) (FromClause.latest previous before) t = true ∧
        depth = (selectsAfter selects before).length - 1 := by
  induction before generalizing selects previous with
  | nil =>
    rw [List.nil_append, tableLists, List.mem_append]
    -- later lists are shorter
    have hlater : (depth, after) ∉
        tableLists (nextSelects selects t) (FromClause.latest previous [t]) after :=
      fun h => lt_irrefl _ (length_lt_of_mem_tableLists h)
    rw [or_iff_left hlater]
    show _ ↔ introduces selects previous t = true ∧ depth = selects.length - 1
    cases introduces selects previous t <;> simp
  | cons b before ih =>
    rw [List.cons_append, tableLists, List.mem_append, ih]
    have hhere : (depth, after) ∉ (if introduces selects previous b then
        [(selects.length - 1, before ++ t :: after)] else []) := by
      split
      · intro h
        have hlength := congrArg (fun list : Nat × List Token => list.2.length)
          (List.mem_singleton.1 h)
        simp only [List.length_append, List.length_cons] at hlength
        omega
      · exact List.not_mem_nil
    rw [or_iff_right hhere]
    rfl

/-- The findings of a scan are those of the readers of its lists. -/
theorem scanTablesIn_lists (selects : List Bool) (previous : Option Token) (tokens : List Token) :
    (scanTablesIn selects previous tokens).mentions =
        (tableLists selects previous tokens).flatMap (fun l => (tableList l.1 l.2).mentions) ∧
      (scanTablesIn selects previous tokens).unreadable =
        (tableLists selects previous tokens).flatMap (fun l => (tableList l.1 l.2).unreadable) := by
  induction tokens generalizing selects previous with
  | nil => exact ⟨rfl, rfl⟩
  | cons t rest ih =>
    obtain ⟨hmentions, hunreadable⟩ :=
      ih (nextSelects selects t) (FromClause.latest previous [t])
    rw [scanTablesIn_cons, tableLists, List.flatMap_append, List.flatMap_append, ← hmentions,
      ← hunreadable]
    cases introduces selects previous t with
    | false => exact ⟨rfl, rfl⟩
    | true => simp [TableScan.append]

/-! ## The tables of a list -/

/-- A table reference that a scan did not pass over: its name is mentioned, or the position is
unreadable. A derived table or a list in parentheses has no name of its own. -/
def Reported (scan : TableScan) (depth : Nat) (tokens : List Token) : Prop :=
  match skipTrivia tokens with
  | [] | .punctuation .openParen :: _ => True
  | start =>
    match readName? start with
    | none => unreadableText start ∈ scan.unreadable
    | some (name, braced, _) =>
      name ++ "(" ∈ scan.unreadable ∨ ∃ alias?, ⟨name, alias?, depth, braced⟩ ∈ scan.mentions

theorem Reported.mono {scan scan' : TableScan} {depth : Nat} {tokens : List Token}
    (h : Reported scan depth tokens) (hmentions : scan.mentions ⊆ scan'.mentions)
    (hunreadable : scan.unreadable ⊆ scan'.unreadable) : Reported scan' depth tokens := by
  unfold Reported at h ⊢
  split at h
  · trivial
  · trivial
  · split at h
    · exact hunreadable h
    · rcases h with h | ⟨alias?, h⟩
      · exact Or.inl (hunreadable h)
      · exact Or.inr ⟨alias?, hmentions h⟩

theorem reported_tableRef (depth : Nat) (tokens : List Token) :
    Reported (tableRef depth tokens).1 depth tokens := by
  unfold Reported
  split
  · trivial
  · trivial
  · rename_i start hne hopen
    split
    · rename_i hname
      rw [tableRef_of_noName hname hne hopen]
      exact List.mem_singleton_self _
    · rename_i name braced left hname
      rw [tableRef_of_name hname]
      split
      · exact Or.inl (List.mem_singleton_self _)
      · exact Or.inr ⟨_, List.mem_singleton_self _⟩

theorem tableRef_subset_tableList (depth : Nat) (tokens : List Token) :
    (tableRef depth tokens).1.mentions ⊆ (tableList depth tokens).mentions ∧
      (tableRef depth tokens).1.unreadable ⊆ (tableList depth tokens).unreadable := by
  rw [tableList_eq]
  split
  · exact ⟨List.Subset.refl _, List.Subset.refl _⟩
  · exact ⟨List.subset_append_left _ _, List.subset_append_left _ _⟩

theorem rest_subset_tableList {depth : Nat} {tokens rest : List Token}
    (h : afterComma? (tableRef depth tokens).2 = some rest) :
    (tableList depth rest).mentions ⊆ (tableList depth tokens).mentions ∧
      (tableList depth rest).unreadable ⊆ (tableList depth tokens).unreadable := by
  rw [tableList_eq depth tokens, h]
  exact ⟨List.subset_append_right _ _, List.subset_append_right _ _⟩

/-- The end of a list of tokens in which parentheses match. -/
def Closes (tokens : List Token) : Prop :=
  ∃ before, Balanced (before ++ tokens)

theorem Closes.suffix {tokens rest : List Token} (h : Closes tokens) (hrest : rest <:+ tokens) :
    Closes rest := by
  obtain ⟨before, hbefore⟩ := h
  obtain ⟨more, rfl⟩ := hrest
  exact ⟨before ++ more, by rwa [List.append_assoc]⟩

theorem Closes.afterClosing? {inner : List Token}
    (h : Closes (.punctuation .openParen :: inner)) :
    ∃ outer, Statement.afterClosing? 0 inner = some outer := by
  obtain ⟨before, hbefore⟩ := h
  obtain ⟨depth, hopen⟩ := hbefore.exists_open
  rw [← List.singleton_append, ← List.append_assoc] at hbefore
  obtain ⟨content, rest, rfl, hcontent⟩ := hopen.openParen.exists_close hbefore
  exact ⟨rest, by rw [afterClosing?_append hcontent, Statement.afterClosing?]⟩

theorem afterComma?_isSuffix {depth : Nat} {tokens rest : List Token}
    (h : afterComma? (tableRef depth tokens).2 = some rest) : rest <:+ tokens := by
  obtain ⟨left, hleft, hskip⟩ := afterComma?_eq_some.1 h
  have hcomma : Token.punctuation .comma :: rest <:+ tokens := by
    rw [← hskip]
    exact (skipTrivia_isSuffix left).trans (readTableRef_isSuffix hleft)
  exact (List.suffix_cons _ _).trans hcomma

theorem inner_isSuffix {tokens inner : List Token}
    (h : skipTrivia tokens = .punctuation .openParen :: inner) : inner <:+ tokens :=
  (List.suffix_cons _ _).trans (h ▸ skipTrivia_isSuffix tokens)

/-- Every reference to which the reader of a list comes is reported. -/
theorem Visited.reported {depth depth' : Nat} {tokens reference : List Token}
    (h : Visited depth tokens depth' reference) (hcloses : Closes tokens) :
    Reported (tableList depth tokens) depth' reference := by
  induction h with
  | here depth tokens =>
    obtain ⟨hmentions, hunreadable⟩ := tableRef_subset_tableList depth tokens
    exact (reported_tableRef depth tokens).mono hmentions hunreadable
  | @next depth depth' tokens rest reference comma _ ih =>
    obtain ⟨hmentions, hunreadable⟩ := rest_subset_tableList comma
    exact (ih (hcloses.suffix (afterComma?_isSuffix comma))).mono hmentions hunreadable
  | @inner depth depth' tokens inner reference opened select _ ih =>
    have hopen : Token.punctuation .openParen :: inner <:+ tokens := opened ▸ skipTrivia_isSuffix tokens
    obtain ⟨outer, houter⟩ := (hcloses.suffix hopen).afterClosing?
    obtain ⟨hmentions, hunreadable⟩ := tableRef_subset_tableList depth tokens
    rw [tableRef_of_openParen opened houter, select] at hmentions hunreadable
    exact (ih (hcloses.suffix (inner_isSuffix opened))).mono hmentions hunreadable

/-! ## The word before a FROM -/

/-- The word DISTINCT stands right before a place, blanks and comments apart. -/
def followsDistinct (before : List Token) : Bool :=
  (FromClause.latest none before).any (·.isKeyword "DISTINCT")

/-- A test IS DISTINCT or IS NOT DISTINCT stands right before a place, blanks and comments apart. -/
def comparesDistinct (before : List Token) : Bool :=
  match (before.filter (!·.isTrivia)).reverse with
  | last :: prior :: rest =>
    last.isKeyword "DISTINCT" &&
      (prior.isKeyword "IS" || (prior.isKeyword "NOT" && rest.head?.any (·.isKeyword "IS")))
  | _ => false

theorem latest_eq (previous : Option Token) (tokens : List Token) :
    FromClause.latest previous tokens =
      ((tokens.filter (!·.isTrivia)).getLast?).or previous := by
  induction tokens generalizing previous with
  | nil => rfl
  | cons t tokens ih =>
    have hstep : FromClause.latest previous (t :: tokens) =
        FromClause.latest (if t.isTrivia then previous else some t) tokens := rfl
    rw [hstep, ih]
    cases ht : t.isTrivia with
    | true => simp [ht]
    | false =>
      rw [List.filter_cons_of_pos (by simp [ht]), List.getLast?_cons]
      cases (tokens.filter (!·.isTrivia)).getLast? <;> simp

theorem followsDistinct_of_comparesDistinct {before : List Token}
    (h : comparesDistinct before = true) : followsDistinct before = true := by
  unfold comparesDistinct at h
  split at h
  · rename_i last prior rest heq
    rw [followsDistinct, latest_eq, ← List.head?_reverse, heq]
    simpa using (Bool.and_eq_true_iff.1 h).1
  · simp at h

/-! ## Statements -/

/-- The tables of a statement are those of the lists that its scan reads. A FROM behind a SELECT of the
same parentheses starts one of them exactly when it does not follow the word DISTINCT, as it does at
the end of a distinctness test, and then every table of its list is reported. -/
theorem parse_readsSource (sql : String) (d : Dialect) (s : Statement) (h : parse sql d = .ok s) :
    (s.mentions = (tableLists [false] none s.tokens).flatMap fun l => (tableList l.1 l.2).mentions) ∧
    (s.scanTables.unreadable =
      (tableLists [false] none s.tokens).flatMap fun l => (tableList l.1 l.2).unreadable) ∧
    ∀ before word after, s.tokens = before ++ word :: after → word.isKeyword "FROM" = true →
      SelectBefore before →
      ∃ depth, Open depth before ∧
        ((depth, after) ∈ tableLists [false] none s.tokens ↔ followsDistinct before = false) ∧
        (comparesDistinct before = true → followsDistinct before = true) ∧
        (followsDistinct before = false → ∀ depth' reference,
          Visited depth after depth' reference → Reported s.scanTables depth' reference) := by
  obtain ⟨hmentions, hunreadable⟩ := scanTablesIn_lists [false] none s.tokens
  refine ⟨hmentions, hunreadable, fun before word after htokens hword hselect => ?_⟩
  have hbalanced := parse_balanced h
  rw [htokens] at hbalanced
  obtain ⟨depth, hopen⟩ := hbalanced.exists_open
  obtain ⟨met, outer, hselects, hlength, hmet⟩ := selectsAfter_iff hopen
  have hlist : (depth, after) ∈ tableLists [false] none s.tokens ↔
      followsDistinct before = false := by
    rw [htokens, mem_tableLists_append, hselects]
    have hjoin := isKeyword_unique hword (show "FROM" ≠ "JOIN" by decide)
    simp [introduces, hword, hjoin, hmet.2 hselect, hlength, followsDistinct]
  refine ⟨depth, hopen, hlist, followsDistinct_of_comparesDistinct, fun hread depth' reference hvisited => ?_⟩
  have hmem := hlist.2 hread
  have hcloses : Closes after := ⟨before ++ [word], by rwa [List.append_assoc, List.singleton_append]⟩
  refine (hvisited.reported hcloses).mono (fun m hm => ?_) (fun text htext => ?_)
  · exact hmentions.symm ▸ List.mem_flatMap.2 ⟨_, hmem, hm⟩
  · exact hunreadable.symm ▸ List.mem_flatMap.2 ⟨_, hmem, htext⟩

theorem parse_readsSource_distinct : ∃ s,
    parse "SELECT DISTINCT u.id /* all */ FROM course u" .sqlite = .ok s ∧
      Reported s.scanTables 0 [.blank .space, .word "course" none, .blank .space, .word "u" none] := by
  obtain ⟨s, hparse, htokens⟩ : ∃ s,
      parse "SELECT DISTINCT u.id /* all */ FROM course u" .sqlite = .ok s ∧
        s.tokens = [Token.word "SELECT" none, .blank .space, .word "DISTINCT" none, .blank .space,
          .word "u" none, .punctuation .period, .word "id" none, .blank .space, .blockComment " all ",
          .blank .space] ++ Token.word "FROM" none ::
            [.blank .space, .word "course" none, .blank .space, .word "u" none] := by
    decide +kernel
  obtain ⟨-, -, hsource⟩ := parse_readsSource _ _ s hparse
  obtain ⟨depth, hopen, -, -, hreported⟩ := hsource _ _ _ htokens (by decide +kernel)
    ⟨[], .word "SELECT" none, _, rfl, by decide +kernel, .of_forall (by decide)⟩
  have hdepth : depth = 0 := by
    have hcount := hopen.count
    simpa [List.count_cons] using hcount.symm
  subst hdepth
  exact ⟨s, hparse, hreported (by decide +kernel) _ _ (.here 0 _)⟩

/-- A column alias DISTINCT hides the table list after it. -/
theorem parse_readsSource_alias : ∃ s before after,
    parse "SELECT 1 AS distinct FROM secrets" .postgres = .ok s ∧
      s.tokens = before ++ .word "FROM" none :: after ∧ SelectBefore before ∧
      comparesDistinct before = false ∧ tableLists [false] none s.tokens = [] ∧
      s.mentions = [] ∧ s.scanTables.unreadable = [] := by
  obtain ⟨s, hparse, htokens⟩ : ∃ s, parse "SELECT 1 AS distinct FROM secrets" .postgres = .ok s ∧
      s.tokens = [Token.word "SELECT" none, .blank .space, .number "1" false, .blank .space,
        .word "AS" none, .blank .space, .word "distinct" none, .blank .space] ++
          Token.word "FROM" none :: [.blank .space, .word "secrets" none] := by
    decide +kernel
  have hlists : tableLists [false] none s.tokens = [] := by
    rw [htokens]
    decide +kernel
  obtain ⟨hmentions, hunreadable⟩ := scanTablesIn_lists [false] none s.tokens
  rw [hlists] at hmentions hunreadable
  exact ⟨s, _, _, hparse, htokens,
    ⟨[], .word "SELECT" none, _, rfl, by decide +kernel, .of_forall (by decide)⟩,
    by decide +kernel, hlists, hmentions, hunreadable⟩

end Statement

end ReportSql
