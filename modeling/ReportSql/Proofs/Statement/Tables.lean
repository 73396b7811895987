import ReportSql.Proofs.Statement.FromClause
import ReportSql.Proofs.Statement.Reader

/-!
# The tables that a scan finds

The reader of a table list goes through the references of a `TableList` up to the
first join, and the scan of a statement starts a reader at each FROM and at each
JOIN. So every name of a FROM clause is found, apart from those that
`FromClause.missed` lists.

## Main definitions

* `TableScan.FoundIn` - a scan without unreadable positions and its tables in a list
* `Statement.SourceRead`, `Statement.ListRead` - a reader was started at a list of tokens
* `Statement.SelectBefore` - a SELECT stands in the same parentheses

## Main results

* `Statement.selectsAfter_balanced` - what a scan knows of the SELECTs in its parentheses
* `FromClause.mentionedIn_or_missed` - the names of a clause in a scanned list of tokens
-/

namespace ReportSql

open Token

/-! ## Findings -/

/-- A scan in which every position was readable, and whose tables are in a list. -/
structure TableScan.FoundIn (scan : TableScan) (mentions : List TableMention) : Prop where
  readable : scan.unreadable = []
  found : ∀ m ∈ scan.mentions, m ∈ mentions

theorem TableScan.foundIn_append {a b : TableScan} {mentions : List TableMention} :
    (a.append b).FoundIn mentions ↔ a.FoundIn mentions ∧ b.FoundIn mentions := by
  constructor
  · rintro ⟨hreadable, hfound⟩
    obtain ⟨ha, hb⟩ := List.append_eq_nil_iff.1 hreadable
    exact ⟨⟨ha, fun m hm => hfound m (List.mem_append_left _ hm)⟩,
      ⟨hb, fun m hm => hfound m (List.mem_append_right _ hm)⟩⟩
  · rintro ⟨ha, hb⟩
    refine ⟨List.append_eq_nil_iff.2 ⟨ha.readable, hb.readable⟩, fun m hm => ?_⟩
    rcases List.mem_append.1 hm with hm | hm
    · exact ha.found m hm
    · exact hb.found m hm

namespace Statement

variable {mentions : List TableMention}

/-! ## Names and aliases -/

theorem readNameParts_append {parts : List NamePart}
    (hparts : (parts.all fun p => p.before.1.isEmpty && p.after.1.isEmpty) = true)
    {rest : List Token} (hrest : rest.head? ≠ some (.punctuation .period)) :
    readNameParts (parts.flatMap NamePart.tokens ++ rest) =
      (String.join (parts.map fun p => "." ++ p.part), rest) := by
  induction parts with
  | nil => exact readNameParts_of_head? hrest
  | cons p parts ih =>
    obtain ⟨⟨before, hbefore⟩, ⟨after, hafter⟩, part, quote⟩ := p
    simp only [List.all_cons, Bool.and_eq_true, List.isEmpty_iff] at hparts
    obtain ⟨⟨rfl, rfl⟩, hparts⟩ := hparts
    have ih := ih (by simpa using hparts)
    simp [NamePart.tokens, readNameParts, ih, String.append_assoc]

theorem readName?_tokens {n : TableName} (hn : n.isAdjacent = true) {rest : List Token}
    (hrest : EndsName rest) : readName? (n.tokens ++ rest) = some (n.text, n.isBraced, rest) := by
  cases n with
  | braced name => rfl
  | dotted first quote parts plain =>
    have hparts := readNameParts_append hn hrest.head?
    simp [TableName.tokens, readName?, bracedTable?, hparts, TableName.text, TableName.isBraced]

theorem readAlias_tokens {a : TableAlias} (ha : a.isRead = true) {tail rest : List Token}
    (htail : skipTrivia tail = .punctuation .comma :: rest) :
    skipTrivia (readAlias (a.tokens ++ tail)).2 = .punctuation .comma :: rest := by
  cases a with
  | absent =>
    have hread : readAlias tail = (none, tail) := by
      simp [readAlias, htail, isKeyword, unquotedWord?, aliasName?]
    rw [TableAlias.tokens, List.nil_append, hread, htail]
  | bare gap word quote free =>
    obtain ⟨has, hfree⟩ := free
    obtain ⟨name, hname⟩ := Option.isSome_iff_exists.1 hfree
    have hread : readAlias (gap.1 ++ .word word quote :: tail) = (some name, tail) := by
      simp [readAlias, skipTrivia_gap, skipTrivia_cons (t := .word word quote) rfl, has, hname]
    rw [TableAlias.tokens, List.append_assoc, List.singleton_append, hread, htail]
  | named gap as gap' word quote =>
    obtain ⟨name, hname⟩ := Option.isSome_iff_exists.1 ha
    obtain ⟨value, hvalue, -⟩ := isKeyword_iff.1 as.2
    have has : skipTrivia (as.1 :: (gap'.1 ++ .word word quote :: tail)) =
        as.1 :: (gap'.1 ++ .word word quote :: tail) := skipTrivia_cons (by rw [hvalue]; rfl) _
    have hread : readAlias (gap.1 ++ as.1 :: (gap'.1 ++ .word word quote :: tail)) =
        (some name, tail) := by
      simp [readAlias, skipTrivia_gap, has, as.2, skipTrivia_cons (t := .word word quote) rfl, hname]
    rw [TableAlias.tokens, List.append_assoc, List.cons_append, List.append_assoc,
      List.singleton_append, hread, htail]

/-! ## The readers of references and of lists -/

theorem tableRef_name {n : TableName} (hn : n.isAdjacent = true) (gap : Gap) {rest : List Token}
    (hrest : EndsName rest) (depth : Nat) :
    tableRef depth (gap.1 ++ (n.tokens ++ rest)) =
      if firstSignificant? rest = some (.punctuation .openParen) then
        (.unread (n.text ++ "("), none)
      else
        (.mention ⟨n.text, (readAlias rest).1, depth, n.isBraced⟩, some (readAlias rest).2) := by
  have hname := readName?_tokens hn hrest
  have hskip : skipTrivia (gap.1 ++ (n.tokens ++ rest)) = n.tokens ++ rest := by
    rw [skipTrivia_gap]
    cases n <;> rfl
  rw [tableRef_eq, hskip]
  cases n <;> simp [TableName.tokens] at hname ⊢ <;> simp [hname]

theorem tableRef_enclosed (gap : Gap) {inner : List Token} (hinner : Balanced inner)
    (outer : List Token) (depth : Nat) :
    tableRef depth
        (gap.1 ++ .punctuation .openParen :: (inner ++ .punctuation .closeParen :: outer)) =
      (if (firstSignificant? (inner ++ .punctuation .closeParen :: outer)).any
          (·.isKeyword "SELECT") then .empty
        else tableList (depth + 1) (inner ++ .punctuation .closeParen :: outer),
        some (readAlias outer).2) := by
  rw [tableRef_eq, skipTrivia_gap, skipTrivia_cons rfl]
  simp [afterClosing?_append hinner, afterClosing?]

/-- The reader of a reference was started at a list of tokens. -/
def SourceRead (mentions : List TableMention) (tokens : List Token) : Prop :=
  ∃ depth, (tableRef depth tokens).1.FoundIn mentions

/-- The reader of a list was started at a list of tokens. -/
def ListRead (mentions : List TableMention) (tokens : List Token) : Prop :=
  ∃ depth, (tableList depth tokens).FoundIn mentions

theorem tableList_first {depth : Nat} {tokens : List Token}
    (h : (tableList depth tokens).FoundIn mentions) :
    (tableRef depth tokens).1.FoundIn mentions := by
  rw [tableList_eq] at h
  split at h
  · exact h
  · exact (TableScan.foundIn_append.1 h).1

theorem ListRead.source {tokens : List Token} (h : ListRead mentions tokens) :
    SourceRead mentions tokens := by
  obtain ⟨depth, h⟩ := h
  exact ⟨depth, tableList_first h⟩

theorem SourceRead.mentionedIn {n : TableName} (hn : n.isAdjacent = true) {gap : Gap}
    {rest : List Token} (h : SourceRead mentions (gap.1 ++ (n.tokens ++ rest)))
    (hrest : EndsName rest) : n.MentionedIn mentions := by
  obtain ⟨depth, h⟩ := h
  rw [tableRef_name hn gap hrest] at h
  split at h
  · exact absurd h.readable (by simp [TableScan.unread])
  · exact ⟨_, h.found _ (List.mem_singleton.2 rfl), rfl, rfl⟩

/-- A list in parentheses is read by a reader of its own. -/
theorem SourceRead.group {gap : Gap} {inner outer : List Token}
    (h : SourceRead mentions
      (gap.1 ++ .punctuation .openParen :: (inner ++ .punctuation .closeParen :: outer)))
    (hinner : Balanced inner)
    (hselect : (firstSignificant? (inner ++ .punctuation .closeParen :: outer)).any
      (·.isKeyword "SELECT") = false) :
    ListRead mentions (inner ++ .punctuation .closeParen :: outer) := by
  obtain ⟨depth, h⟩ := h
  rw [tableRef_enclosed gap hinner, hselect] at h
  exact ⟨depth + 1, h⟩

/-- The reader of a reference comes to the comma after it. -/
theorem tableRef_passed {source : TableSource} (hsource : source.isPassed = true)
    {tail rest : List Token} (htail : skipTrivia tail = .punctuation .comma :: rest) {depth : Nat}
    (h : (tableRef depth (source.tokens ++ tail)).1.FoundIn mentions) :
    afterComma? (tableRef depth (source.tokens ++ tail)).2 = some rest := by
  have hends : EndsName tail := by
    simp [EndsName, firstSignificant?, htail]
  rw [afterComma?_eq_some]
  cases source with
  | table gap name label =>
    obtain ⟨hname, halias⟩ := Bool.and_eq_true_iff.1 hsource
    rw [TableSource.tokens, List.append_assoc, List.append_assoc,
      tableRef_name hname gap (label.endsName hends)] at h ⊢
    split at h
    · exact absurd h.readable (by simp [TableScan.unread])
    · rename_i hopen
      rw [if_neg hopen]
      exact ⟨_, rfl, readAlias_tokens halias htail⟩
  | derived gap query select label =>
    rw [TableSource.tokens, List.append_assoc, List.cons_append, List.append_assoc,
      List.cons_append, tableRef_enclosed gap query.2]
    exact ⟨_, rfl, readAlias_tokens hsource htail⟩
  | group gap tables close label =>
    rw [TableSource.tokens, List.append_assoc, List.cons_append, List.append_assoc,
      List.cons_append, tableRef_enclosed gap (tables.balanced.append (balanced_gap _))]
    exact ⟨_, rfl, readAlias_tokens hsource htail⟩

/-- The reader of a list goes on after a comma. -/
theorem ListRead.rest {source : TableSource} {tail rest : List Token}
    (h : ListRead mentions (source.tokens ++ tail)) (hsource : source.isPassed = true)
    (htail : skipTrivia tail = .punctuation .comma :: rest) : ListRead mentions rest := by
  obtain ⟨depth, hlist⟩ := h
  have hcomma := tableRef_passed hsource htail (tableList_first hlist)
  rw [tableList_eq, hcomma] at hlist
  exact ⟨depth, (TableScan.foundIn_append.1 hlist).2⟩

/-! ## Table lists -/

/-- A reader of a list was started after every JOIN. -/
def JoinsRead (mentions : List TableMention) (tokens : List Token) : Prop :=
  ∀ before keyword rest, tokens = before ++ keyword :: rest → keyword.isKeyword "JOIN" = true →
    ListRead mentions rest

theorem JoinsRead.of_append {first second : List Token} (h : JoinsRead mentions (first ++ second)) :
    JoinsRead mentions second := by
  intro before keyword rest heq hkeyword
  exact h (first ++ before) keyword rest (by rw [heq, List.append_assoc]) hkeyword

theorem JoinsRead.of_cons {t : Token} {tokens : List Token} (h : JoinsRead mentions (t :: tokens)) :
    JoinsRead mentions tokens :=
  @JoinsRead.of_append _ [t] _ h

end Statement

open Statement

variable {mentions : List TableMention}

/-- A reference does not start like a derived table from the inside. -/
theorem TableSource.select_eq_false (source : TableSource) (tail : List Token) :
    (firstSignificant? (source.tokens ++ tail)).any (·.isKeyword "SELECT") = false := by
  cases source with
  | table gap name label =>
    rw [TableSource.tokens, List.append_assoc, firstSignificant?_gap]
    cases name with
    | braced name => rfl
    | dotted first quote parts plain => exact plain
  | derived gap query select label =>
    rw [TableSource.tokens, List.append_assoc, firstSignificant?_gap]
    rfl
  | group gap tables close label =>
    rw [TableSource.tokens, List.append_assoc, firstSignificant?_gap]
    rfl

mutual

/-- Every name of a reference is found or passed over. -/
theorem TableSource.mentionedIn_or_missed : ∀ (source : TableSource) (reached : Bool)
    {tail : List Token}, JoinsRead mentions (source.tokens ++ tail) → EndsName tail →
    (reached = true → SourceRead mentions (source.tokens ++ tail)) →
    ∀ n ∈ source.names, n.MentionedIn mentions ∨ n ∈ source.missed reached
  | .table gap name label, reached, tail, _, hends, hread => by
    intro n hn
    obtain rfl : n = name := by simpa [TableSource.names] using hn
    rw [TableSource.missed]
    split
    · rename_i h
      obtain ⟨hreached, hname⟩ := Bool.and_eq_true_iff.1 h
      have hsource := hread hreached
      rw [TableSource.tokens, List.append_assoc, List.append_assoc] at hsource
      exact Or.inl (hsource.mentionedIn hname (label.endsName hends))
    · exact Or.inr List.mem_cons_self
  | .derived .., _, _, _, _, _ => by
    intro n hn
    simp [TableSource.names] at hn
  | .group gap tables close label, reached, tail, hjoins, hends, hread => by
    rw [TableSource.names, TableSource.missed]
    rw [TableSource.tokens, List.append_assoc, List.cons_append, List.append_assoc,
      List.cons_append] at hjoins hread
    have hinner := hjoins.of_append.of_cons
    rw [List.append_assoc] at hinner
    refine tables.mentionedIn_or_missed reached hinner ?_ fun hreached => ?_
    · unfold EndsName
      rw [firstSignificant?_gap]
      exact fun h => by simp at h
    · have hlist := (hread hreached).group (tables.balanced.append (balanced_gap _)) ?_
      · rwa [List.append_assoc] at hlist
      · cases tables with
        | last source joins =>
          simp only [TableList.tokens, List.append_assoc]
          exact source.select_eq_false _
        | more source joins gap rest =>
          simp only [TableList.tokens, List.append_assoc]
          exact source.select_eq_false _

/-- Every name of a comma list is found or passed over. -/
theorem TableList.mentionedIn_or_missed : ∀ (tables : TableList) (reached : Bool)
    {tail : List Token}, JoinsRead mentions (tables.tokens ++ tail) → EndsName tail →
    (reached = true → ListRead mentions (tables.tokens ++ tail)) →
    ∀ n ∈ tables.names, n.MentionedIn mentions ∨ n ∈ tables.missed reached
  | .last source joins, reached, tail, hjoins, hends, hread => by
    rw [TableList.tokens, List.append_assoc] at hjoins hread
    rw [TableList.names, TableList.missed]
    have hsource := source.mentionedIn_or_missed reached hjoins (joins.endsName hends)
      fun h => (hread h).source
    have hrest := joins.mentionedIn_or_missed hjoins.of_append hends
    grind
  | .more source joins gap rest, reached, tail, hjoins, hends, hread => by
    rw [TableList.tokens] at hjoins hread
    simp only [List.append_assoc, List.cons_append] at hjoins hread
    rw [TableList.names, TableList.missed]
    have hcomma : EndsName (gap.1 ++ .punctuation .comma :: (rest.tokens ++ tail)) := by
      simp [EndsName]
    have hsource := source.mentionedIn_or_missed reached hjoins (joins.endsName hcomma)
      fun h => (hread h).source
    have hfollowing := joins.mentionedIn_or_missed hjoins.of_append hcomma
    have hrest := rest.mentionedIn_or_missed (reached && joins.isDone && source.isPassed)
      hjoins.of_append.of_append.of_append.of_cons hends ?_
    · grind
    · intro h
      simp only [Bool.and_eq_true] at h
      obtain ⟨⟨hreached, hdone⟩, hpassed⟩ := h
      cases joins with
      | join => exact Bool.noConfusion hdone
      | done =>
        refine (hread hreached).rest hpassed ?_
        rw [TableJoins.tokens, List.nil_append, skipTrivia_gap]
        rfl

/-- Every name of joins is found or passed over. -/
theorem TableJoins.mentionedIn_or_missed : ∀ (joins : TableJoins) {tail : List Token},
    JoinsRead mentions (joins.tokens ++ tail) → EndsName tail →
    ∀ n ∈ joins.names, n.MentionedIn mentions ∨ n ∈ joins.missed
  | .done, _, _, _ => by
    intro n hn
    simp [TableJoins.names] at hn
  | .join words gap keyword source condition rest, tail, hjoins, hends => by
    rw [TableJoins.tokens] at hjoins
    simp only [List.append_assoc, List.cons_append] at hjoins
    rw [TableJoins.names, TableJoins.missed]
    have hafter := hjoins.of_append.of_append
    have hsource := source.mentionedIn_or_missed true hafter.of_cons
      (condition.endsName _) fun _ => (hafter [] keyword.1 _ rfl keyword.2).source
    have hrest := rest.mentionedIn_or_missed hafter.of_cons.of_append.of_append hends
    grind

end

mutual

theorem TableSource.missed_subset : ∀ (source : TableSource) (reached : Bool),
    source.missed reached ⊆ source.names
  | .table gap name label, reached => by
    rw [TableSource.missed, TableSource.names]
    split
    · exact List.nil_subset _
    · exact List.Subset.refl _
  | .derived .., _ => List.nil_subset _
  | .group gap tables close label, reached => by
    rw [TableSource.missed, TableSource.names]
    exact tables.missed_subset reached

theorem TableList.missed_subset : ∀ (tables : TableList) (reached : Bool),
    tables.missed reached ⊆ tables.names
  | .last source joins, reached => by
    have hsource := source.missed_subset reached
    have hjoins := joins.missed_subset
    rw [TableList.missed, TableList.names]
    grind
  | .more source joins gap rest, reached => by
    have hsource := source.missed_subset reached
    have hjoins := joins.missed_subset
    have hrest := rest.missed_subset (reached && joins.isDone && source.isPassed)
    rw [TableList.missed, TableList.names]
    grind

theorem TableJoins.missed_subset : ∀ joins : TableJoins, joins.missed ⊆ joins.names
  | .done => List.nil_subset _
  | .join words gap keyword source condition rest => by
    have hsource := source.missed_subset true
    have hrest := rest.missed_subset
    rw [TableJoins.missed, TableJoins.names]
    grind

end

/-! ## The scan of a statement -/

namespace Statement

/-- What is known of the SELECTs of the open parentheses after one more token. -/
def nextSelects (selects : List Bool) (t : Token) : List Bool :=
  match t with
  | .punctuation .openParen => false :: selects
  | .punctuation .closeParen => if 1 < selects.length then selects.tail else selects
  | _ => if t.isKeyword "SELECT" then true :: selects.tail else selects

/-- Whether a token starts a table list. -/
def introduces (selects : List Bool) (previous : Option Token) (t : Token) : Bool :=
  t.isKeyword "JOIN" ||
    (t.isKeyword "FROM" && selects.head?.getD false && !previous.any (·.isKeyword "DISTINCT"))

theorem scanTablesIn_cons (selects : List Bool) (previous : Option Token) (t : Token)
    (rest : List Token) :
    scanTablesIn selects previous (t :: rest) =
      (if introduces selects previous t then tableList (selects.length - 1) rest else .empty).append
        (scanTablesIn (nextSelects selects t) (FromClause.latest previous [t]) rest) := by
  have hlatest : FromClause.latest previous [t] = if t.isTrivia then previous else some t := rfl
  -- the rules for parentheses come before the one for keywords
  by_cases hopen : t = .punctuation .openParen
  · subst hopen
    rw [scanTablesIn]
    rfl
  by_cases hclose : t = .punctuation .closeParen
  · subst hclose
    rw [scanTablesIn]
    rfl
  have hnext : nextSelects selects t =
      if t.isKeyword "SELECT" then true :: selects.tail else selects := by
    unfold nextSelects
    split
    · exact absurd rfl hopen
    · exact absurd rfl hclose
    · rfl
  rw [scanTablesIn, hlatest, hnext]
  rotate_left
  · exact hopen
  · exact hclose
  by_cases hselect : t.isKeyword "SELECT" = true
  · have hintroduces : introduces selects previous t = false := by
      simp [introduces, isKeyword_unique hselect (show "SELECT" ≠ "JOIN" by decide),
        isKeyword_unique hselect (show "SELECT" ≠ "FROM" by decide)]
    rw [hintroduces, if_pos hselect, if_pos hselect]
    rfl
  · rw [if_neg hselect, if_neg hselect]
    cases hintroduces : introduces selects previous t with
    | false =>
      unfold introduces at hintroduces
      rw [hintroduces]
      rfl
    | true =>
      unfold introduces at hintroduces
      rw [hintroduces]
      rfl

/-- What is known of the SELECTs of the open parentheses after several tokens. -/
def selectsAfter (selects : List Bool) (tokens : List Token) : List Bool :=
  tokens.foldl nextSelects selects

theorem scanTablesIn_append {selects : List Bool} {previous : Option Token}
    {before rest : List Token}
    (h : (scanTablesIn selects previous (before ++ rest)).FoundIn mentions) :
    (scanTablesIn (selectsAfter selects before) (FromClause.latest previous before) rest).FoundIn
      mentions := by
  induction before generalizing selects previous with
  | nil => exact h
  | cons t before ih =>
    rw [List.cons_append, scanTablesIn_cons] at h
    exact ih (TableScan.foundIn_append.1 h).2

theorem scanTablesIn_joinsRead {selects : List Bool} {previous : Option Token} {tokens : List Token}
    (h : (scanTablesIn selects previous tokens).FoundIn mentions) : JoinsRead mentions tokens := by
  rintro before keyword rest rfl hkeyword
  have hscan := scanTablesIn_append h
  rw [scanTablesIn_cons] at hscan
  have hlist := (TableScan.foundIn_append.1 hscan).1
  rw [introduces, hkeyword, Bool.true_or, if_pos rfl] at hlist
  exact ⟨_, hlist⟩

/-! ## The SELECT before a FROM -/

/-- A SELECT stands before a place, in the same parentheses. -/
def SelectBefore (before : List Token) : Prop :=
  ∃ outer select inner, before = outer ++ select :: inner ∧
    select.isKeyword "SELECT" = true ∧ Balanced inner

theorem not_selectBefore_nil : ¬ SelectBefore [] := by
  rintro ⟨outer, select, inner, h, -, -⟩
  simp at h

theorem selectBefore_singleton {t : Token} : SelectBefore [t] ↔ t.isKeyword "SELECT" = true := by
  constructor
  · rintro ⟨outer, select, inner, h, hselect, -⟩
    obtain ⟨rfl, hrest⟩ | ⟨more, hmore⟩ := List.append_eq_cons_iff.1 h.symm
    · obtain ⟨rfl, -⟩ := List.cons.inj hrest
      exact hselect
    · simp at hmore
  · intro h
    exact ⟨[], t, [], rfl, h, .nil⟩

theorem selectBefore_append {first second : List Token} (h : Balanced second) :
    SelectBefore (first ++ second) ↔ SelectBefore first ∨ SelectBefore second := by
  constructor
  · rintro ⟨outer, select, inner, heq, hselect, hinner⟩
    obtain ⟨more, rfl, hmore⟩ | ⟨more, rfl, hmore⟩ := List.append_eq_append_iff.1 heq
    · exact Or.inr ⟨more, select, inner, hmore, hselect, hinner⟩
    · cases more with
      | nil => exact Or.inr ⟨[], select, inner, hmore.symm, hselect, hinner⟩
      | cons t more =>
        obtain ⟨rfl, rfl⟩ := List.cons.inj hmore
        exact Or.inl ⟨outer, select, more, rfl, hselect, h.of_append_left hinner⟩
  · rintro (⟨outer, select, inner, rfl, hselect, hinner⟩ | ⟨outer, select, inner, rfl, hselect, hinner⟩)
    · exact ⟨outer, select, inner ++ second, by simp, hselect, hinner.append h⟩
    · exact ⟨first ++ outer, select, inner, by simp, hselect, hinner⟩

/-- Right after a parenthesis that opens, no SELECT stands in it. -/
theorem not_selectBefore_openParen (first : List Token) :
    ¬ SelectBefore (first ++ [.punctuation .openParen]) := by
  rintro ⟨outer, select, inner, heq, hselect, hinner⟩
  obtain rfl | ⟨inner, t, rfl⟩ := List.eq_nil_or_concat inner
  · have hlast := (List.append_inj' heq rfl).2
    obtain rfl := List.singleton_inj.1 hlast
    exact absurd hselect (by decide)
  · have hlast : [Token.punctuation .openParen] = [t] := by
      rw [List.concat_eq_append, ← List.cons_append, ← List.append_assoc] at heq
      exact (List.append_inj' heq rfl).2
    obtain rfl := List.singleton_inj.1 hlast
    rw [List.concat_eq_append] at hinner
    obtain ⟨depth, hopen⟩ := hinner.exists_open
    have hcount := hopen.openParen.count
    have hall := hinner.count
    omega

/-- A SELECT inside a pair of parentheses does not count behind them. -/
theorem not_selectBefore_enclosed {inner : List Token} (h : Balanced inner) :
    ¬ SelectBefore (.punctuation .openParen :: (inner ++ [.punctuation .closeParen])) := by
  rintro ⟨outer, select, more, heq, hselect, hmore⟩
  have hall : Balanced (.punctuation .openParen :: (inner ++ [.punctuation .closeParen])) :=
    .enclosed h .nil
  have hfirst : Balanced (outer ++ [select]) := by
    rw [heq, ← List.singleton_append, ← List.append_assoc] at hall
    exact hmore.of_append_left hall
  -- what stands before the place leaves the parenthesis open
  cases outer with
  | nil =>
    obtain ⟨rfl, -⟩ := List.cons.inj heq
    exact absurd hselect (by decide)
  | cons t outer =>
    obtain ⟨rfl, hinner⟩ := List.cons.inj heq
    have hprefix : ∃ left, inner = outer ++ [select] ++ left := by
      obtain ⟨left, hleft, hclose⟩ | ⟨left, hleft, hclose⟩ := List.append_eq_append_iff.1 hinner
      · rcases List.cons_eq_append_iff.1 hclose with ⟨rfl, hcons⟩ | ⟨tail, rfl, hnil⟩
        · obtain ⟨rfl, -⟩ := List.cons.inj hcons
          exact absurd hselect (by decide)
        · simp at hnil
      · cases left with
        | nil =>
          obtain ⟨rfl, -⟩ := List.cons.inj hclose
          exact absurd hselect (by decide)
        | cons t left =>
          obtain ⟨rfl, -⟩ := List.cons.inj hclose
          exact ⟨left, by rw [hleft]; simp⟩
    obtain ⟨left, rfl⟩ := hprefix
    obtain ⟨depth, hopen⟩ := h.exists_open
    have hcount := hopen.count
    have hclosed := hfirst.count
    rw [List.cons_append, List.count_cons_self, List.count_cons_of_ne (by decide)] at hclosed
    omega

theorem selectsAfter_append (selects : List Bool) (first second : List Token) :
    selectsAfter selects (first ++ second) = selectsAfter (selectsAfter selects first) second :=
  List.foldl_append

/-- Between two parentheses of a pair a scan knows of the SELECTs met there, and of one met before. -/
theorem selectsAfter_balanced {tokens : List Token} (h : Balanced tokens) (met : Bool)
    (outer : List Bool) :
    ∃ met', selectsAfter (met :: outer) tokens = met' :: outer ∧
      (met' = true ↔ met = true ∨ SelectBefore tokens) := by
  induction h generalizing met outer with
  | nil => exact ⟨met, rfl, by simp [not_selectBefore_nil]⟩
  | @other t rest opens closes hrest ih =>
    have hnext : nextSelects (met :: outer) t = (met || t.isKeyword "SELECT") :: outer := by
      unfold nextSelects
      split
      · exact absurd rfl opens
      · exact absurd rfl closes
      · split <;> simp_all
    obtain ⟨last, hlast, hiff⟩ := ih (met || t.isKeyword "SELECT") outer
    refine ⟨last, ?_, ?_⟩
    · rw [selectsAfter, List.foldl_cons, hnext]
      exact hlast
    · rw [hiff, ← List.singleton_append, selectBefore_append hrest, selectBefore_singleton,
        Bool.or_eq_true, or_assoc]
  | @enclosed inner rest hinner hrest ihinner ihrest =>
    -- a SELECT between the parentheses is forgotten behind them
    obtain ⟨closed, hclosed, -⟩ := ihinner false (met :: outer)
    obtain ⟨last, hlast, hiff⟩ := ihrest met outer
    refine ⟨last, ?_, ?_⟩
    · have hopen : nextSelects (met :: outer) (.punctuation .openParen) = false :: met :: outer := rfl
      have hclose : nextSelects (closed :: met :: outer) (.punctuation .closeParen) = met :: outer := by
        simp [nextSelects]
      unfold selectsAfter at hclosed ⊢
      rw [List.foldl_cons, hopen, List.foldl_append, hclosed, List.foldl_cons, hclose]
      exact hlast
    · have hpair : (Token.punctuation .openParen :: (inner ++ .punctuation .closeParen :: rest)) =
          (.punctuation .openParen :: (inner ++ [.punctuation .closeParen])) ++ rest := by simp
      rw [hiff, hpair, selectBefore_append hrest]
      simp [not_selectBefore_enclosed hinner]

end Statement

namespace FromClause

/-- Every name of a clause that stands in a scanned list of tokens is found or passed over. -/
theorem mentionedIn_or_missed {c : FromClause} {selects : List Bool} {previous : Option Token}
    {tokens : List Token} (h : (scanTablesIn selects previous tokens).FoundIn mentions)
    (hc : c.StandsIn tokens) :
    ∀ n ∈ c.tables.names, n.MentionedIn mentions ∨ n ∈ c.missed := by
  obtain ⟨before, after, rfl, hafter⟩ := hc
  have hselect := scanTablesIn_append h
  have hjoins := scanTablesIn_joinsRead hselect
  simp only [FromClause.tokens, List.cons_append, List.append_assoc] at hselect hjoins
  refine c.tables.mentionedIn_or_missed _ hjoins.of_cons.of_append.of_cons hafter fun hreached => ?_
  -- after SELECT, one is known at this depth up to FROM
  rw [scanTablesIn_cons] at hselect
  have hfrom := scanTablesIn_append (TableScan.foundIn_append.1 hselect).2
  obtain ⟨value, hvalue, hword⟩ := isKeyword_iff.1 c.select.2
  have hmet : nextSelects (selectsAfter selects before) c.select.1 =
      true :: (selectsAfter selects before).tail := by
    rw [hvalue]
    simp [nextSelects, isKeyword, unquotedWord?, hword]
  have hlatest : latest (latest previous before) [c.select.1] = some c.select.1 := by
    rw [hvalue]
    rfl
  obtain ⟨met, hfields, hmet'⟩ :=
    selectsAfter_balanced c.fields.2 true (selectsAfter selects before).tail
  rw [hmet, hlatest, hfields, scanTablesIn_cons] at hfrom
  have hintroduces : introduces (met :: (selectsAfter selects before).tail)
      (latest (some c.select.1) c.fields.1) c.keyword.1 = true := by
    have hdistinct : (latest (some c.select.1) c.fields.1).any (·.isKeyword "DISTINCT") = false := by
      simpa [followsDistinct] using hreached
    simp [introduces, c.keyword.2, hmet'.2 (Or.inl rfl), hdistinct]
  rw [hintroduces, if_pos rfl] at hfrom
  exact ⟨_, (TableScan.foundIn_append.1 hfrom).1⟩

end FromClause

end ReportSql
