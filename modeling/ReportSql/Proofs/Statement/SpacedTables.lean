import ReportSql.Proofs.Statement.Spacing

/-!
# The tables of a statement with blanks and comments put in

A scan of tokens with blanks and comments put between them goes step by step with
the scan of the tokens alone. It finds the same tables exactly when nothing was put
around a point of a name that is read: such a name is read in part, and the list
behind it is not read.

## Main definitions

* `Shadows` - the findings of a scan beside those of the tokens alone

## Main results

* `Statement.scanTablesIn_spaced` - when a scan finds the same tables
-/

namespace ReportSql

open Token

/-! ## Findings side by side -/

/-- The findings of a scan beside those of the scan with blanks and comments put in between. Of a
readable scan no more is found there, all of it readable, and it is the same exactly under a condition;
under the condition the findings of every scan are the same. -/
structure Shadows (scan spaced : TableScan) (condition : Prop) : Prop where
  readable : scan.unreadable = [] → spaced.unreadable = []
  fewer : scan.unreadable = [] → spaced.mentions.length ≤ scan.mentions.length
  same : scan.unreadable = [] → (spaced.mentions = scan.mentions ↔ condition)
  kept : condition → spaced.mentions = scan.mentions ∧ (spaced.unreadable = [] ↔ scan.unreadable = [])

namespace Shadows

variable {scan scan' spaced spaced' : TableScan} {P Q : Prop}

theorem congr (h : Shadows scan spaced P) (hPQ : P ↔ Q) : Shadows scan spaced Q :=
  ⟨h.readable, h.fewer, fun hread => (h.same hread).trans hPQ, fun hQ => h.kept (hPQ.2 hQ)⟩

theorem refl (scan : TableScan) {P : Prop} (h : scan.unreadable = [] → P) : Shadows scan scan P :=
  ⟨id, fun _ => le_rfl, fun hread => iff_of_true rfl (h hread), fun _ => ⟨rfl, Iff.rfl⟩⟩

theorem append (h : Shadows scan spaced P) (h' : Shadows scan' spaced' Q) :
    Shadows (scan.append scan') (spaced.append spaced') (P ∧ Q) := by
  have hsplit : (scan.append scan').unreadable = [] → scan.unreadable = [] ∧ scan'.unreadable = [] :=
    List.append_eq_nil_iff.1
  refine ⟨fun hread => ?_, fun hread => ?_, fun hread => ?_, fun ⟨hP, hQ⟩ => ?_⟩
  · obtain ⟨hfirst, hsecond⟩ := hsplit hread
    exact List.append_eq_nil_iff.2 ⟨h.readable hfirst, h'.readable hsecond⟩
  · obtain ⟨hfirst, hsecond⟩ := hsplit hread
    have hle := h.fewer hfirst
    have hle' := h'.fewer hsecond
    simp only [TableScan.append, List.length_append]
    omega
  · obtain ⟨hfirst, hsecond⟩ := hsplit hread
    rw [← h.same hfirst, ← h'.same hsecond]
    constructor
    · intro heq
      have hmentions : spaced.mentions ++ spaced'.mentions = scan.mentions ++ scan'.mentions := heq
      have hlength := congrArg List.length hmentions
      have hle := h.fewer hfirst
      have hle' := h'.fewer hsecond
      simp only [List.length_append] at hlength
      exact List.append_inj hmentions (by omega)
    · rintro ⟨heq, heq'⟩
      simp only [TableScan.append, heq, heq']
  · obtain ⟨hmentions, hread⟩ := h.kept hP
    obtain ⟨hmentions', hread'⟩ := h'.kept hQ
    constructor
    · simp only [TableScan.append, hmentions, hmentions']
    · simp only [TableScan.append, List.append_eq_nil_iff, hread, hread']

/-- A first finding that is different makes the findings different. -/
theorem differs {m m' : TableMention} {more : TableScan} (hne : m' ≠ m) (hP : ¬ P) :
    Shadows ((TableScan.mention m).append more) (TableScan.mention m') P := by
  refine ⟨fun _ => rfl, fun _ => ?_, fun _ => iff_of_false (fun heq => ?_) hP, fun h => absurd h hP⟩
  · simp [TableScan.append, TableScan.mention]
  · have hhead := congrArg List.head? heq
    simp only [TableScan.append, TableScan.mention, List.singleton_append, List.head?_cons,
      Option.some.injEq] at hhead
    exact hne hhead

end Shadows

namespace Statement

open Spacing

variable {last : Gap}

/-! ## Lists -/

theorem Visited.isSuffix {depth depth' : Nat} {tokens reference : List Token}
    (h : Visited depth tokens depth' reference) : reference <:+ tokens := by
  induction h with
  | here => exact List.suffix_rfl
  | next comma _ ih => exact ih.trans (afterComma?_isSuffix comma)
  | inner opened _ _ ih => exact ih.trans (inner_isSuffix opened)

theorem listKept_iff {depth : Nat} {l : Spacing} :
    ListKept depth l ↔ NameKept l ∧
      (∀ inner, inner <:+ l → skipTrivia (bare l) = .punctuation .openParen :: bare inner →
        (firstSignificant? (bare inner)).any (·.isKeyword "SELECT") = false →
          ListKept (depth + 1) inner) ∧
      ∀ rest, rest <:+ l → afterComma? (tableRef depth (bare l)).2 = some (bare rest) →
        ListKept depth rest := by
  constructor
  · intro h
    refine ⟨h depth l List.suffix_rfl (.here _ _), fun inner hinner hopen hselect depth' l' hl' hvisited => ?_,
      fun rest hrest hcomma depth' l' hl' hvisited => ?_⟩
    · exact h depth' l' (hl'.trans hinner) (.inner hopen hselect hvisited)
    · exact h depth' l' (hl'.trans hrest) (.next hcomma hvisited)
  · rintro ⟨hname, hinner, hrest⟩ depth' l' hl' hvisited
    generalize hreference : bare l' = reference at hvisited
    cases hvisited with
    | here =>
      obtain rfl := eq_of_bare hl' List.suffix_rfl hreference
      exact hname
    | @next _ _ _ rest _ comma visited =>
      obtain ⟨rest', hrest', rfl⟩ : ∃ rest', rest' <:+ l ∧ bare rest' = rest := by
        obtain ⟨before, hbefore⟩ := afterComma?_isSuffix comma
        obtain ⟨l₁, l₂, rfl, -, hl₂⟩ := List.map_eq_append_iff.1 hbefore.symm
        exact ⟨l₂, List.suffix_append _ _, hl₂⟩
      subst hreference
      exact hrest rest' hrest' comma depth' l' (suffix_of_bare hl' hrest' visited.isSuffix) visited
    | @inner _ _ _ inner _ opened select visited =>
      obtain ⟨inner', hinner', rfl⟩ : ∃ inner', inner' <:+ l ∧ bare inner' = inner := by
        obtain ⟨before, hbefore⟩ := inner_isSuffix opened
        obtain ⟨l₁, l₂, rfl, -, hl₂⟩ := List.map_eq_append_iff.1 hbefore.symm
        exact ⟨l₂, List.suffix_append _ _, hl₂⟩
      subst hreference
      exact hinner inner' hinner' opened select depth' l'
        (suffix_of_bare hl' hinner' visited.isSuffix) visited

/-- From the findings of the first references those of the lists that go on after the same comma. -/
theorem shadows_tableList {depth : Nat} {l : Spacing} {P : Prop}
    (hfirst : Shadows (tableRef depth (bare l)).1 (tableRef depth (spaced last l)).1 P)
    (hcomma : SameRest last l (afterComma? (tableRef depth (bare l)).2)
      (afterComma? (tableRef depth (spaced last l)).2))
    (hrest : ∀ rest, rest <:+ l → rest.length < l.length →
      Shadows (tableList depth (bare rest)) (tableList depth (spaced last rest))
        (ListKept depth rest)) :
    Shadows (tableList depth (bare l)) (tableList depth (spaced last l))
      (P ∧ ∀ rest, rest <:+ l → afterComma? (tableRef depth (bare l)).2 = some (bare rest) →
        ListKept depth rest) := by
  rw [tableList_eq depth (bare l), tableList_eq depth (spaced last l)]
  obtain ⟨hbare, hspaced⟩ | ⟨rest, hsuffix, hbare, hspaced⟩ := hcomma
  · rw [hbare, hspaced]
    exact hfirst.congr (by simp)
  · have hlength : rest.length < l.length := by
      have hlt := afterComma?_length hbare
      rwa [length_bare, length_bare] at hlt
    rw [hbare, hspaced]
    refine (hfirst.append (hrest rest hsuffix hlength)).congr (and_congr_right fun _ => ?_)
    constructor
    · intro hkept rest' hrest' heq
      obtain rfl := eq_of_bare hrest' hsuffix (Option.some.inj heq).symm
      exact hkept
    · intro hkept
      exact hkept rest hsuffix rfl

/-- A reference in parentheses is read the same as far as its names are kept. -/
theorem tableRef_spaced_openParen (depth : Nat) {l inner : Spacing}
    (hbare : skipTrivia (bare l) = .punctuation .openParen :: bare inner)
    (hspaced : skipTrivia (spaced last l) = .punctuation .openParen :: spaced last inner)
    (hinner : inner <:+ l)
    (hlist : Shadows (tableList (depth + 1) (bare inner)) (tableList (depth + 1) (spaced last inner))
      (ListKept (depth + 1) inner)) :
    Shadows (tableRef depth (bare l)).1 (tableRef depth (spaced last l)).1
        ((firstSignificant? (bare inner)).any (·.isKeyword "SELECT") = false →
          ListKept (depth + 1) inner) ∧
      SameRest last l (afterComma? (tableRef depth (bare l)).2)
        (afterComma? (tableRef depth (spaced last l)).2) := by
  obtain ⟨hbareClose, hspacedClose⟩ | ⟨outer, houter, hbareClose, hspacedClose⟩ :=
    afterClosing?_spaced last 0 inner
  · have hunclosed : ∀ {tokens inner : List Token}, skipTrivia tokens = .punctuation .openParen :: inner →
        afterClosing? 0 inner = none → tableRef depth tokens = (.unread "(", none) := by
      intro tokens inner hskip hclose
      rw [tableRef_eq, hskip]
      dsimp only
      rw [hclose]
    rw [hunclosed hbare hbareClose, hunclosed hspaced hspacedClose]
    exact ⟨.refl _ fun hread => absurd hread (by simp [TableScan.unread]), Or.inl ⟨rfl, rfl⟩⟩
  · rw [tableRef_of_openParen hbare hbareClose, tableRef_of_openParen hspaced hspacedClose,
      firstSignificant?_spaced]
    constructor
    · cases (firstSignificant? (bare inner)).any (·.isKeyword "SELECT") with
      | true => exact .refl _ fun _ h => Bool.noConfusion h
      | false => exact hlist.congr (by simp)
    · obtain ⟨left, alias?, hleft, hbareAlias, hspacedAlias⟩ := readAlias_spaced last outer
      rw [hbareAlias, hspacedAlias]
      exact (afterComma?_spaced last left).mono (hleft.trans (houter.trans hinner))

/-- A reference that is a name and is kept is read the same. -/
theorem tableRef_spaced_name (depth : Nat) {l left : Spacing} {name : String} {braced : Bool}
    (hbare : readName? (skipTrivia (bare l)) = some (name, braced, bare left))
    (hspaced : readName? (skipTrivia (spaced last l)) = some (name, braced, spaced last left))
    (hleft : left <:+ l) :
    (tableRef depth (spaced last l)).1 = (tableRef depth (bare l)).1 ∧
      SameRest last l (afterComma? (tableRef depth (bare l)).2)
        (afterComma? (tableRef depth (spaced last l)).2) := by
  rw [tableRef_of_name hbare, tableRef_of_name hspaced, firstSignificant?_spaced]
  split
  · exact ⟨rfl, Or.inl ⟨rfl, rfl⟩⟩
  · obtain ⟨after, alias?, hafter, hbareAlias, hspacedAlias⟩ := readAlias_spaced last left
    rw [hbareAlias, hspacedAlias]
    exact ⟨rfl, (afterComma?_spaced last after).mono (hafter.trans hleft)⟩

/-- A name that is read up to a point has no alias, and the list stops after it. -/
theorem tableRef_of_point {tokens left : List Token} {name : String} {braced : Bool}
    (h : readName? (skipTrivia tokens) = some (name, braced, left))
    (hpoint : firstSignificant? left = some (.punctuation .period)) (depth : Nat) :
    (tableRef depth tokens).1 = .mention ⟨name, none, depth, braced⟩ ∧
      afterComma? (tableRef depth tokens).2 = none := by
  obtain ⟨rest, hskip⟩ := List.head?_eq_some_iff.1 hpoint
  have hcandidates : aliasCandidates left = .punctuation .period :: rest := by
    rw [aliasCandidates, hskip]
    rfl
  have halias : readAlias left = (none, left) := by
    rw [readAlias_eq, hcandidates]
    rfl
  rw [tableRef_of_name h, if_neg (by rw [hpoint]; simp), halias]
  exact ⟨rfl, by simp [afterComma?, hskip]⟩

/-- Behind a name that is read in part the list is not read. -/
theorem shadows_broken {depth : Nat} {l : Spacing} {left left' : List Token} {name name' : String}
    {P : Prop} (hbare : readName? (skipTrivia (bare l)) = some (name, false, left))
    (hspaced : readName? (skipTrivia (spaced last l)) = some (name', false, left'))
    (hne : name' ≠ name) (hpoint : firstSignificant? left' = some (.punctuation .period))
    (hP : ¬ P) : Shadows (tableList depth (bare l)) (tableList depth (spaced last l)) P := by
  obtain ⟨hmention, hstop⟩ := tableRef_of_point hspaced hpoint depth
  rw [tableList_eq depth (spaced last l), hstop, hmention, tableList_eq, tableRef_of_name hbare]
  dsimp only
  split_ifs
  · refine ⟨fun h => ?_, fun h => ?_, fun h => ?_, fun h => absurd h hP⟩ <;>
      simp [afterComma?, TableScan.unread] at h
  · have hdiffers : ∀ more, Shadows
        ((TableScan.mention ⟨name, (readAlias left).1, depth, false⟩).append more)
        (.mention ⟨name', none, depth, false⟩) P :=
      fun more => .differs (fun heq => hne (TableMention.mk.inj heq).1) hP
    dsimp only
    split
    · have hlast := hdiffers .empty
      simpa [TableScan.append, TableScan.empty] using hlast
    · exact hdiffers _

section Lists

variable {depth : Nat} {l rest : Spacing} {gap : Gap} {t : Token}
  (hrest : ∀ rest, rest <:+ l → rest.length < l.length →
    Shadows (tableList depth (bare rest)) (tableList depth (spaced last rest)) (ListKept depth rest))

include hrest

/-- Where nothing but blanks and comments is left, nothing is found. -/
theorem shadows_end (hbare : skipTrivia (bare l) = []) (hspaced : skipTrivia (spaced last l) = []) :
    Shadows (tableList depth (bare l)) (tableList depth (spaced last l)) (ListKept depth l) := by
  have hempty : ∀ {tokens}, skipTrivia tokens = [] → tableRef depth tokens = (.empty, none) := by
    intro tokens hskip
    rw [tableRef_eq, hskip]
  have hfirst : Shadows (tableRef depth (bare l)).1 (tableRef depth (spaced last l)).1 True := by
    rw [hempty hbare, hempty hspaced]
    exact .refl _ fun _ => trivial
  rw [listKept_iff]
  refine (shadows_tableList hfirst (Or.inl ?_) hrest).congr ?_
  · rw [hempty hbare, hempty hspaced]
    exact ⟨rfl, rfl⟩
  · have hname : NameKept l := by
      rw [skipTrivia_bare] at hbare
      unfold NameKept
      rw [List.map_eq_nil_iff.1 hbare]
      trivial
    simp [hbare, hname]

/-- Where a parenthesis comes first, the findings are those of the list inside and of the rest. -/
theorem shadows_openParen (hskip : skip l = (gap, .punctuation .openParen) :: rest)
    (hbare : skipTrivia (bare l) = .punctuation .openParen :: bare rest)
    (hspaced : skipTrivia (spaced last l) = .punctuation .openParen :: spaced last rest)
    (hsuffix : rest <:+ l)
    (hinner : Shadows (tableList (depth + 1) (bare rest)) (tableList (depth + 1) (spaced last rest))
      (ListKept (depth + 1) rest)) :
    Shadows (tableList depth (bare l)) (tableList depth (spaced last l)) (ListKept depth l) := by
  have hname : NameKept l := by
    rw [NameKept, hskip]
    trivial
  obtain ⟨hfirst, hcomma⟩ := tableRef_spaced_openParen depth hbare hspaced hsuffix hinner
  rw [listKept_iff]
  refine (shadows_tableList hfirst hcomma hrest).congr ?_
  rw [and_iff_right hname]
  refine and_congr_left fun _ => ⟨fun h inner hinner heq hselect => ?_, fun h => h rest hsuffix hbare⟩
  rw [hbare] at heq
  obtain rfl := eq_of_bare hsuffix hinner (List.cons.inj heq).2
  exact h hselect

/-- Where another token comes first, a name is read the same when it is kept, and otherwise in part. -/
theorem shadows_name (hbraces : BracesKept l) (hskip : skip l = (gap, t) :: rest)
    (hbare : skipTrivia (bare l) = t :: bare rest)
    (hspaced : skipTrivia (spaced last l) = t :: spaced last rest) (hsuffix : rest <:+ l)
    (hopen : t ≠ .punctuation .openParen) :
    Shadows (tableList depth (bare l)) (tableList depth (spaced last l)) (ListKept depth l) := by
  have hname : NameKept l ↔ HeadKept ((gap, t) :: rest) := by rw [NameKept, hskip]
  have hnoParen : ∀ inner, skipTrivia (bare l) ≠ .punctuation .openParen :: inner := by
    rw [hbare]
    exact fun inner heq => hopen (List.cons.inj heq).1
  have hhead : (gap, t) :: rest <:+ l := hskip ▸ skip_isSuffix l
  have hnames := readName?_spaced last (hbraces.suffix hhead).1
  rw [← hbare, ← hspaced, ← hname] at hnames
  rw [listKept_iff]
  obtain ⟨hbareName, hspacedName, hkept⟩ | ⟨name, braced, left, hleft, hbareName, hspacedName, hkept⟩ |
    ⟨name, left, name', left', hbareName, hspacedName, hne, hpoint, hbroken⟩ := hnames
  · have hunread := tableRef_of_noName hbareName (by simp [hbare]) hnoParen depth
    have hunread' := tableRef_of_noName hspacedName (by simp [hspaced])
      (by rw [hspaced]; exact fun inner heq => hopen (List.cons.inj heq).1) depth
    have hfirst : Shadows (tableRef depth (bare l)).1 (tableRef depth (spaced last l)).1 True := by
      rw [hunread, hunread']
      refine ⟨fun h => ?_, fun h => ?_, fun h => ?_, fun _ => ⟨rfl, by simp [TableScan.unread]⟩⟩ <;>
        simp [TableScan.unread] at h
    refine (shadows_tableList hfirst (Or.inl ?_) hrest).congr ?_
    · rw [hunread, hunread']
      exact ⟨rfl, rfl⟩
    · simp [hkept, hnoParen]
  · obtain ⟨hsame, hcomma⟩ :=
      tableRef_spaced_name depth hbareName hspacedName (hleft.trans hsuffix)
    have hfirst : Shadows (tableRef depth (bare l)).1 (tableRef depth (spaced last l)).1 True := by
      rw [hsame]
      exact .refl _ fun _ => trivial
    refine (shadows_tableList hfirst hcomma hrest).congr ?_
    simp [hkept, hnoParen]
  · -- a name that is cut is followed by a point, and only its first parts are read
    exact shadows_broken hbareName hspacedName hne hpoint fun hall => hbroken hall.1

end Lists

/-- The findings of the reader of a list, which are the same exactly when every name is kept. -/
theorem tableList_spaced {depth : Nat} {l : Spacing} (hbraces : BracesKept l) :
    Shadows (tableList depth (bare l)) (tableList depth (spaced last l)) (ListKept depth l) := by
  induction hlength : l.length using Nat.strongRecOn generalizing depth l with
  | ind n ih =>
  subst hlength
  have hshorter : ∀ depth rest, rest <:+ l → rest.length < l.length →
      Shadows (tableList depth (bare rest)) (tableList depth (spaced last rest))
        (ListKept depth rest) :=
    fun depth rest hsuffix hlt => ih rest.length hlt (hbraces.suffix hsuffix) rfl
  obtain ⟨hbare, hspaced⟩ | ⟨gap, t, rest, hskip, hsuffix, hbare, hspaced⟩ := skip_cases last l
  · exact shadows_end (hshorter depth) hbare hspaced
  · by_cases hopen : t = .punctuation .openParen
    · subst hopen
      have hhead : (gap, .punctuation .openParen) :: rest <:+ l := hskip ▸ skip_isSuffix l
      exact shadows_openParen (hshorter depth) hskip hbare hspaced hsuffix
        (hshorter (depth + 1) rest hsuffix hhead.length_le)
    · exact shadows_name (hshorter depth) hbraces hskip hbare hspaced hsuffix hopen

/-! ## The scan of a statement -/

theorem scanTablesIn_gap (selects : List Bool) (previous : Option Token) (gap : Gap)
    (tokens : List Token) :
    scanTablesIn selects previous (gap.1 ++ tokens) = scanTablesIn selects previous tokens := by
  obtain ⟨gap, hgap⟩ := gap
  induction gap with
  | nil => rfl
  | cons t gap ih =>
    obtain ⟨ht, hgap⟩ := List.forall_mem_cons.1 hgap
    have hnext : nextSelects selects t = selects := by
      cases t <;> first | rfl | exact Bool.noConfusion ht
    have hintroduces : introduces selects previous t = false := by
      cases t <;> first | rfl | exact Bool.noConfusion ht
    have hlatest : FromClause.latest previous [t] = previous := if_pos ht
    have hrest := ih hgap
    rw [List.cons_append, scanTablesIn_pass hnext hintroduces, hlatest]
    exact hrest

theorem namesKept_cons {selects : List Bool} {previous : Option Token} {gap : Gap} {t : Token}
    {l : Spacing} :
    NamesKept selects previous ((gap, t) :: l) ↔
      (introduces selects previous t = true → ListKept (selects.length - 1) l) ∧
        NamesKept (nextSelects selects t) (FromClause.latest previous [t]) l := by
  have hbare : bare ((gap, t) :: l) = t :: bare l := rfl
  -- a list is shorter than the tokens it starts in, so it is not all of them
  have hsuffix : ∀ {l' : Spacing}, l' <:+ (gap, t) :: l → ∀ {depth},
      (depth, bare l') ∈ tableLists selects previous (t :: bare l) → l' <:+ l := by
    intro l' hl' depth hmem
    rcases List.suffix_cons_iff.1 hl' with rfl | hl'
    · have hlt := length_lt_of_mem_tableLists hmem
      simp [bare] at hlt
    · exact hl'
  unfold NamesKept
  rw [hbare]
  constructor
  · intro h
    refine ⟨fun hintroduces => ?_, fun depth l' hl' hmem => ?_⟩
    · refine h _ l (List.suffix_cons _ _) ?_
      rw [tableLists, hintroduces, if_pos rfl]
      exact List.mem_cons_self
    · refine h depth l' (hl'.trans (List.suffix_cons _ _)) ?_
      rw [tableLists]
      exact List.mem_append_right _ hmem
  · rintro ⟨hfirst, hrest⟩ depth l' hl' hmem
    have hl'' := hsuffix hl' hmem
    rw [tableLists] at hmem
    rcases List.mem_append.1 hmem with hmem | hmem
    · cases hintroduces : introduces selects previous t with
      | false => simp [hintroduces] at hmem
      | true =>
        rw [hintroduces, if_pos rfl] at hmem
        obtain ⟨rfl, heq⟩ := Prod.mk.inj (List.mem_singleton.1 hmem)
        obtain rfl := eq_of_bare hl'' List.suffix_rfl heq
        exact hfirst hintroduces
    · exact hrest depth l' hl'' hmem

theorem shadows_scan (last : Gap) (selects : List Bool) (previous : Option Token) {l : Spacing}
    (hbraces : BracesKept l) :
    Shadows (scanTablesIn selects previous (bare l)) (scanTablesIn selects previous (spaced last l))
      (NamesKept selects previous l) := by
  induction l generalizing selects previous with
  | nil =>
    have hlast := scanTablesIn_gap selects previous last []
    rw [List.append_nil] at hlast
    have hempty : scanTablesIn selects previous (spaced last []) =
        scanTablesIn selects previous (bare []) := hlast
    rw [hempty]
    exact .refl _ fun _ depth l' _ hmem => absurd hmem List.not_mem_nil
  | cons p l ih =>
    obtain ⟨gap, t⟩ := p
    have hbare : bare ((gap, t) :: l) = t :: bare l := rfl
    have hrest := hbraces.suffix (List.suffix_cons _ _)
    rw [hbare, spaced_cons, scanTablesIn_gap, scanTablesIn_cons, scanTablesIn_cons, namesKept_cons]
    refine Shadows.append ?_ (ih _ _ hrest)
    cases introduces selects previous t with
    | false => exact .refl _ fun _ h => Bool.noConfusion h
    | true => exact (tableList_spaced hrest).congr (by simp)

/-- Blanks and comments that are put between tokens, but not into braces around a name, leave the
tables that a scan finds as they are when none of them is put around a point of a name that is read. If
every position is readable, it stays so, and the tables are the same in no other case. -/
theorem scanTablesIn_spaced (l : Spacing) (last : Gap) (hbraces : BracesKept l) :
    (NamesKept [false] none l →
      (scanTablesIn [false] none (spaced last l)).mentions =
          (scanTablesIn [false] none (bare l)).mentions ∧
        ((scanTablesIn [false] none (spaced last l)).unreadable = [] ↔
          (scanTablesIn [false] none (bare l)).unreadable = [])) ∧
    ((scanTablesIn [false] none (bare l)).unreadable = [] →
      (scanTablesIn [false] none (spaced last l)).unreadable = [] ∧
        ((scanTablesIn [false] none (spaced last l)).mentions =
          (scanTablesIn [false] none (bare l)).mentions ↔ NamesKept [false] none l)) := by
  have hshadows := shadows_scan last [false] none hbraces
  exact ⟨hshadows.kept, fun hread => ⟨hshadows.readable hread, hshadows.same hread⟩⟩

/-- A dotted name with comments before and behind it. -/
def commentedName : Spacing :=
  let comment : Gap := ⟨[.blank .space, .blockComment " all "], by decide⟩
  [(Gap.empty, .word "SELECT" none), (Gap.empty, .blank .space), (Gap.empty, .number "1" false),
    (Gap.empty, .blank .space), (Gap.empty, .word "FROM" none), (comment, .blank .space),
    (Gap.empty, .word "course" none), (Gap.empty, .punctuation .period), (Gap.empty, .word "x" none),
    (comment, .blank .space), (Gap.empty, .word "AS" none), (comment, .blank .space),
    (comment, .word "c" none)]

theorem scanTablesIn_spaced_comments :
    tokenize .postgres "SELECT 1 FROM course.x AS c" = .ok (bare commentedName) ∧
      tokenize .postgres "SELECT 1 FROM /* all */ course.x /* all */ AS /* all */  /* all */c" =
        .ok (spaced Gap.empty commentedName) ∧
      BracesKept commentedName ∧ NamesKept [false] none commentedName ∧
      (scanTablesIn [false] none (spaced Gap.empty commentedName)).mentions =
        [⟨"course.x", some "c", 0, false⟩] := by
  have hbraces : BracesKept commentedName := by simp [commentedName, BracesKept, BraceKept]
  have hkept : NamesKept [false] none commentedName := by
    intro depth l' hl' hmem
    have hlists : tableLists [false] none (bare commentedName) =
        [(0, bare (commentedName.drop 5))] := by decide +kernel
    rw [hlists] at hmem
    obtain ⟨rfl, heq⟩ := Prod.mk.inj (List.mem_singleton.1 hmem)
    obtain rfl := eq_of_bare hl' (List.drop_suffix 5 _) heq
    refine listKept_iff.2 ⟨?_, fun inner _ hopen _ => ?_, fun rest _ hcomma => ?_⟩
    · simp [commentedName, NameKept, skip, HeadKept, PartsKept, Token.isTrivia, Gap.empty]
    · have hhead : (skipTrivia (bare (commentedName.drop 5))).head? = some (.word "course" none) := rfl
      rw [hopen] at hhead
      exact absurd (Option.some.inj hhead) (by simp)
    · have hnone : afterComma? (tableRef 0 (bare (commentedName.drop 5))).2 = none := by decide +kernel
      rw [hnone] at hcomma
      simp at hcomma
  refine ⟨by decide +kernel, by decide +kernel, hbraces, hkept, ?_⟩
  rw [((scanTablesIn_spaced commentedName Gap.empty hbraces).1 hkept).1]
  decide +kernel

/-- Blanks around a point leave the first part of a name only. -/
theorem scanTablesIn_spaced_point : ∃ (l : Spacing) (last : Gap), BracesKept l ∧
    tokenize .postgres "SELECT 1 FROM course.secrets" = .ok (bare l) ∧
      tokenize .postgres "SELECT 1 FROM course . secrets" = .ok (spaced last l) ∧
      (scanTablesIn [false] none (bare l)).mentions = [⟨"course.secrets", none, 0, false⟩] ∧
      (scanTablesIn [false] none (spaced last l)).mentions = [⟨"course", none, 0, false⟩] := by
  let space : Gap := ⟨[.blank .space], by decide⟩
  refine ⟨[(Gap.empty, .word "SELECT" none), (Gap.empty, .blank .space), (Gap.empty, .number "1" false),
    (Gap.empty, .blank .space), (Gap.empty, .word "FROM" none), (Gap.empty, .blank .space),
    (Gap.empty, .word "course" none), (space, .punctuation .period), (space, .word "secrets" none)],
    Gap.empty, by simp [BracesKept, BraceKept], ?_, ?_, ?_, ?_⟩
  all_goals decide +kernel

end Statement

end ReportSql
