import ReportSql.Proofs.Token.Numbers

/-!
# Operators

The outcome of the readers of operators and of the marks that start an operator,
a word or a parameter.
-/

namespace ReportSql

namespace Token

variable {d : Dialect}

/-- The operators of the table, and the marks outside it. -/
def allMarks : List String :=
  operators.map (·.1) ++ furtherMarks

private theorem operators_head : ∀ e ∈ operators, ∀ c ∈ e.1.toList.head?,
    c ∉ ([' ', '\t', '\n', '\r', '\'', '%', '#', '@', '?'] : List Char) ∧ c ∉ literalLetters ∧
      c ∉ ['"', '\x60', '['] ∧ c.isDigit = false ∧ c ≠ '.' := by
  decide

private theorem operators_noComment : ∀ e ∈ operators,
    e.1.toList.take 2 ≠ ['-', '-'] ∧ e.1.toList.take 2 ≠ ['/', '*'] := by
  decide

private theorem operators_continued : ∀ e ∈ operators,
    e.2 = true ↔ ∃ c ∈ e.1.toList.head?, c ∈ continuedMarks := by
  decide

private theorem marks_continued : ∀ m ∈ allMarks, (∃ c ∈ m.toList.head?, c ∈ continuedMarks) →
    ∀ c ∈ m.toList, isOperatorPart .postgres c = true := by
  decide

private theorem furtherMarks_extend : ∀ e ∈ operators, ∀ m ∈ furtherMarks,
    m.toList.dropLast = e.1.toList → m = "--" ∨ m = "/*" := by
  decide

/-- A text that makes an operator longer completes one of the marks. -/
theorem push_mem_allMarks {text : String} {c : Char} (h : text.push c ∈ allMarks) :
    ∃ m ∈ allMarks, m.toList.dropLast = text.toList ∧ m.toList.getLast? = some c :=
  ⟨_, h, by simp, by simp⟩

/-- What an operator before a text asks of the first character there, custom operators apart. -/
structure Admits (d : Dialect) (text : String) (next : List Char) : Prop where
  unextended : ∀ c ∈ next.head?, text.push c ∉ allMarks
  blank : (text = "@" ∨ text = "@@") ∧ isWordStart d '@' = true ∨ text = "#" ∧ d = .tsql →
    ∀ c ∈ next.head?, c = ' '

theorem OperatorApart.admits {text : String} {next : List Char} (h : OperatorApart d text next) :
    Admits d text next :=
  ⟨h.unextended, h.blank⟩

theorem Admits.apart {text : String} {next : List Char} (h : Admits d text next)
    (hstops : (∃ c ∈ text.toList.head?, c ∈ continuedMarks) → Stops (isOperatorPart d) next)
    (hlast : text ≠ "?") : OperatorApart d text next :=
  ⟨h.unextended, hstops, fun h => absurd h hlast, h.blank⟩

theorem Admits.of_head {text : String} {next next' : List Char} (h : Admits d text next)
    (hhead : next.head? = next'.head?) : Admits d text next' := by
  obtain ⟨hunextended, hblank⟩ := h
  rw [hhead] at hunextended hblank
  exact ⟨hunextended, hblank⟩

/-- Only one dialect has custom operators. -/
theorem postgres_of_operatorPart {c : Char} (h : isOperatorPart d c = true) : d = .postgres := by
  cases d with
  | postgres => rfl
  | mysql => exact Bool.noConfusion h
  | tsql => exact Bool.noConfusion h
  | sqlite => exact Bool.noConfusion h

theorem scanOperator_plain {text : String} {continues : Bool} {next : List Char} (hne : text ≠ "!=")
    (hstops : continues = true → Stops (isOperatorPart d) next) :
    scanOperator d text continues next = (.operator text, next) := by
  have hmore : (if continues then next.takeWhile (isOperatorPart d) else []) = [] := by
    split
    · rename_i h
      exact takeWhile_of_stops (hstops h)
    · rfl
  unfold scanOperator
  simp [hmore, hne]

theorem scanOperator_custom {text : String} {more next : List Char} (hne : more ≠ [])
    (hparts : ∀ c ∈ more, isOperatorPart d c = true) (hstops : Stops (isOperatorPart d) next) :
    scanOperator d text true (more ++ next) = (.operator (text ++ String.ofList more), next) := by
  unfold scanOperator
  simp [takeWhile_append_stops hparts hstops, hne]

/-- A custom operator ends where its characters do. -/
theorem customOperator_apart {text : String} {more next : List Char} (hd : d = .postgres)
    (hhead : ∃ c ∈ text.toList.head?, c ∈ continuedMarks)
    (hstops : Stops (isOperatorPart d) next) :
    OperatorApart d (text ++ String.ofList more) next := by
  subst hd
  obtain ⟨c, hc, hmark⟩ := hhead
  have hhead : (text ++ String.ofList more).toList.head? = some c := by
    rw [String.toList_append, List.head?_append, Option.mem_def.1 hc]
    rfl
  refine ⟨fun a ha hmem => ?_, fun _ => hstops, fun h => ?_, fun h => ?_⟩
  · have hpart := marks_continued _ hmem ⟨c, by
      rw [String.toList_push, List.head?_append, hhead]
      rfl, hmark⟩ a (by simp)
    rw [hstops a ha] at hpart
    exact Bool.noConfusion hpart
  · rw [h] at hhead
    obtain rfl : '?' = c := Option.some.inj hhead
    exact absurd hmark (by decide)
  · rcases h with ⟨-, hword⟩ | ⟨-, hd⟩
    · exact Bool.noConfusion hword
    · exact Dialect.noConfusion hd

/-- An operator that is reached before every text that it admits. -/
theorem operator_outcome (text : String) (continues : Bool) {rest : List Char}
    (hreach : ∀ next, Admits d text next → Begins d (text.toList ++ next)
      (scanOperator d text continues next).1 (scanOperator d text continues next).2)
    (hcontinues : continues = true ↔ ∃ c ∈ text.toList.head?, c ∈ continuedMarks)
    (hrest : Admits d text rest) (hne : text ≠ "!=") (hlast : text ≠ "?") :
    Outcome d (text.toList ++ rest) (scanOperator d text continues rest).1
      (scanOperator d text continues rest).2 := by
  -- a custom operator takes all operator characters that follow
  by_cases hcustom : continues = true ∧ ¬ Stops (isOperatorPart d) rest
  · obtain ⟨rfl, hnot⟩ := hcustom
    have hparts : ∀ c ∈ rest.takeWhile (isOperatorPart d), isOperatorPart d c = true :=
      fun c hc => List.mem_takeWhile_imp hc
    have hsplit := List.takeWhile_append_dropWhile (p := isOperatorPart d) (l := rest)
    have hstops := stops_dropWhile (isOperatorPart d) rest
    have hmore : rest.takeWhile (isOperatorPart d) ≠ [] := by
      intro hnil
      rw [hnil, List.nil_append] at hsplit
      rw [hsplit] at hstops
      exact hnot hstops
    generalize hm : rest.takeWhile (isOperatorPart d) = more at *
    generalize hl : rest.dropWhile (isOperatorPart d) = left at *
    subst hsplit
    obtain ⟨c, tail, rfl⟩ := List.exists_cons_of_ne_nil hmore
    have hd := postgres_of_operatorPart (hparts c List.mem_cons_self)
    rw [scanOperator_custom hmore hparts hstops]
    refine Outcome.exact (by simp) trivial
      (customOperator_apart hd (hcontinues.1 rfl) hstops) fun next hnext => ?_
    have hstops : Stops (isOperatorPart d) next := by
      refine hnext.stops ?_
      obtain ⟨a, ha, hmark⟩ := hcontinues.1 rfl
      refine ⟨a, ?_, hmark⟩
      rw [String.toList_append, List.head?_append, Option.mem_def.1 ha]
      rfl
    have hread := hreach (c :: tail ++ next) (hrest.of_head rfl)
    rw [scanOperator_custom hmore hparts hstops] at hread
    simpa using hread
  · have hstops : continues = true → Stops (isOperatorPart d) rest :=
      fun hc => Classical.not_not.1 fun hnot => hcustom ⟨hc, hnot⟩
    rw [scanOperator_plain hne hstops]
    refine Outcome.exact rfl trivial
      (hrest.apart (fun h => hstops (hcontinues.2 h)) hlast) fun next hnext => ?_
    have hread := hreach next (OperatorApart.admits hnext)
    rwa [scanOperator_plain hne fun h => hnext.stops (hcontinues.1 h)] at hread

/-! ## Operators of the table -/

/-- What follows in the rules once the marks before them are ruled out. -/
theorem scanPlain_operators {c : Char} {rest : List Char} (hletters : c ∉ literalLetters)
    (hname : opensName d c = false) (hdouble : c ≠ '"')
    (hnumber : c.isDigit = false ∧ c ≠ '.') :
    scanPlain d c rest =
      match scanKnownOperator? d (c :: rest) with
      | some found => .ok found
      | none =>
        match punctuationOf? c with
        | some mark => .ok (.punctuation mark, rest)
        | none =>
          if isWordStart d c then .ok (scanWord d [c] rest)
          else if c = '$' then scanDollar rest
          else if Text.isBlank c then .ok (.blank .space, rest)
          else .ok (.other c, rest) := by
  have hletters : ¬ "bBnNeEuUxX".toList.contains c = true :=
    fun h => hletters (List.contains_iff_mem.1 h)
  have hname : ¬ opensName d c = true := by simp [hname]
  have hnumber : ¬ (c.isDigit || c = '.') = true := by simp [hnumber]
  exact (if_neg hletters).trans <| (if_neg hname).trans <| (if_neg hdouble).trans (if_neg hnumber)

theorem scanKnownOperator?_eq (cs : List Char) :
    scanKnownOperator? d cs =
      (findOperator? cs).map fun e => scanOperator d e.1 e.2 (cs.drop e.1.length) :=
  rfl

/-- A text that starts with an operator of the table comes to the rules for plain characters: two
characters that open a comment are no operator, and they make none longer. -/
private theorem scan_operator {entry : String × Bool} (h : entry ∈ operators) {c : Char}
    {tail next : List Char} (htext : entry.1.toList = c :: tail)
    (hnext : ∀ c ∈ next.head?, entry.1.push c ∉ allMarks) :
    scan d c (tail ++ next) = scanPlain d c (tail ++ next) := by
  obtain ⟨hdash, hslash⟩ := operators_noComment entry h
  have hhead := operators_head entry h
  rw [htext] at hdash hslash hhead
  -- no operator opens a comment, also not together with what follows
  have hcomment : ∀ a b : Char, c = a → String.ofList [a, b] ∈ furtherMarks →
      (c :: tail).take 2 ≠ [a, b] → (tail ++ next).head? ≠ some b := by
    intro a b hca hmark htake hb
    cases tail with
    | nil =>
      refine hnext b hb (List.mem_append_right _ ?_)
      have hpush : entry.1.push b = String.ofList [a, b] := by
        apply String.toList_injective
        simp [htext, hca]
      rwa [hpush]
    | cons x tail =>
      obtain rfl : x = b := by simpa using hb
      exact htake (by simp [hca])
  by_cases hc : c = '-'
  · have hne := hcomment '-' '-' hc (by decide) hdash
    rw [hc]
    exact scan_minus hne
  by_cases hc' : c = '/'
  · have hne := hcomment '/' '*' hc' (by decide) hslash
    rw [hc']
    exact scan_slash hne
  have hmarks := (hhead c rfl).1
  refine scan_plain ?_
  simp only [leadingMarks, List.mem_cons, List.not_mem_nil, or_false] at hmarks ⊢
  grind

theorem begins_operator (entry : String × Bool) {next : List Char} (h : entry ∈ operators)
    (hnext : ∀ c ∈ next.head?, entry.1.push c ∉ allMarks) :
    Begins d (entry.1.toList ++ next) (scanOperator d entry.1 entry.2 next).1
      (scanOperator d entry.1 entry.2 next).2 := by
  have hunextended : Unextended entry.1 next :=
    fun c hc hmem => hnext c hc (List.mem_append_left _ hmem)
  have hfind := (findOperator?_append h).2 hunextended
  have hknown : scanKnownOperator? d (entry.1.toList ++ next) =
      some (scanOperator d entry.1 entry.2 next) := by
    have hdrop : (entry.1.toList ++ next).drop entry.1.length = next := by
      rw [← String.length_toList, List.drop_left]
    rw [scanKnownOperator?_eq, hfind, Option.map_some, hdrop]
  cases htext : entry.1.toList with
  | nil => exact absurd htext (operators_nonempty entry h)
  | cons c tail =>
    have hhead := operators_head entry h
    rw [htext] at hhead hknown
    obtain ⟨-, hletters, hquotes, hdigit, hperiod⟩ := hhead c rfl
    obtain ⟨hname, hdouble⟩ := opens_nothing (d := d) hquotes
    show scan d c (tail ++ next) = .ok _
    rw [scan_operator h htext hnext, scanPlain_operators hletters hname hdouble ⟨hdigit, hperiod⟩]
    rw [List.cons_append] at hknown
    rw [hknown]

theorem notEqual_rereads (next : List Char) (hnext : OperatorApart d "<>" next) :
    Begins d ((operator "<>").chars ++ next) (.operator "<>") next := by
  have hread := begins_operator (d := d) ("<>", true) (by decide) hnext.unextended
  rw [scanOperator_plain (by decide) fun _ => hnext.stops ⟨'<', rfl, by decide⟩] at hread
  exact hread

/-- Where a text opens no comment, its longest operator is extended by no mark. -/
private theorem push_notMem_of_longest {entry : String × Bool} {rest : List Char}
    (hentry : entry ∈ operators) (hlongest : Unextended entry.1 rest)
    (hdash : (entry.1.toList ++ rest).take 2 ≠ ['-', '-'])
    (hslash : (entry.1.toList ++ rest).take 2 ≠ ['/', '*']) :
    ∀ c ∈ rest.head?, entry.1.push c ∉ allMarks := by
  intro c hc hmem
  rcases List.mem_append.1 hmem with hmem | hmem
  · exact hlongest c hc hmem
  · obtain ⟨rest, rfl⟩ := List.head?_eq_some_iff.1 hc
    have hcomment := furtherMarks_extend entry hentry _ hmem (by simp)
    have htake : ∀ a b : Char, entry.1.push c = String.ofList [a, b] →
        (entry.1.toList ++ c :: rest).take 2 = [a, b] := by
      intro a b hpush
      have hlist := congrArg String.toList hpush
      rw [String.toList_push, String.toList_ofList] at hlist
      rw [List.append_cons, hlist]
      rfl
    rcases hcomment with hcomment | hcomment
    · exact hdash (htake '-' '-' hcomment)
    · exact hslash (htake '/' '*' hcomment)

/-- No operator of the table starts with a sign that has rules of its own. -/
private theorem operator_ne {entry : String × Bool} (hentry : entry ∈ operators) (text : String)
    (htext : ∃ c ∈ text.toList.head?, c ∈ ['#', '@', '?']) : entry.1 ≠ text := by
  obtain ⟨c, hc, hmem⟩ := htext
  intro heq
  have hmarks := (operators_head entry hentry c (heq ▸ hc)).1
  simp only [List.mem_cons, List.not_mem_nil, or_false] at hmarks hmem
  grind

/-- The outcome of the longest operator at the head of a text that opens no comment. -/
theorem knownOperator_outcome {cs left : List Char} {t : Token}
    (h : scanKnownOperator? d cs = some (t, left)) (hdash : cs.take 2 ≠ ['-', '-'])
    (hslash : cs.take 2 ≠ ['/', '*']) : Outcome d cs t left := by
  rw [scanKnownOperator?_eq] at h
  obtain ⟨entry, hfind, hscan⟩ := Option.map_eq_some_iff.1 h
  obtain ⟨hentry, rest, rfl⟩ := findOperator?_isPrefix hfind
  have hdrop : (entry.1.toList ++ rest).drop entry.1.length = rest := by
    rw [← String.length_toList, List.drop_left]
  rw [hdrop] at hscan
  by_cases hne : entry.1 = "!="
  · obtain rfl : entry = ("!=", false) := by
      have hunique : ∀ e ∈ operators, e.1 = "!=" → e = ("!=", false) := by decide
      exact hunique entry hentry hne
    obtain ⟨rfl, rfl⟩ : Token.operator "<>" = t ∧ rest = left := Prod.mk.inj hscan
    exact ⟨.notEqual, fun _ next hnext => notEqual_rereads next hnext⟩
  · have hadmits : Admits d entry.1 rest := by
      refine ⟨push_notMem_of_longest hentry ((findOperator?_append hentry).1 hfind) hdash hslash, ?_⟩
      rintro (⟨h | h, -⟩ | ⟨h, -⟩)
      · exact absurd h (operator_ne hentry "@" ⟨'@', rfl, by decide⟩)
      · exact absurd h (operator_ne hentry "@@" ⟨'@', rfl, by decide⟩)
      · exact absurd h (operator_ne hentry "#" ⟨'#', rfl, by decide⟩)
    have houtcome := operator_outcome entry.1 entry.2 (fun next h => begins_operator entry hentry h.unextended)
      (operators_continued entry hentry) hadmits hne (operator_ne hentry "?" ⟨'?', rfl, by decide⟩)
    rwa [hscan] at houtcome

/-! ## Percent and number signs -/

theorem scanPercent_eq (cs : List Char) : scanPercent d cs = scanOperator d "%" true cs := by
  cases cs with
  | nil => rfl
  | cons c cs =>
    have hblank : Text.isBlank c = true → Stops (isOperatorPart d) (c :: cs) := by
      intro hblank
      rw [stops_cons, Bool.eq_false_iff]
      intro hpart
      have hparts : ∀ a ∈ "+-*/<>=~!@#%^&|\x60?".toList, Text.isBlank a = false := by decide
      obtain rfl := postgres_of_operatorPart hpart
      rw [hparts c (List.contains_iff_mem.1 hpart)] at hblank
      exact Bool.noConfusion hblank
    unfold scanPercent
    dsimp only
    split
    · rename_i h
      rw [scanOperator_plain (by decide) fun _ => hblank h]
    · rfl

/-- An operator that no mark is longer than. -/
theorem admits_of_longest (text : String) (hlongest : ∀ m ∈ allMarks, m.toList.dropLast ≠ text.toList)
    (hother : text ≠ "@" ∧ text ≠ "@@" ∧ text ≠ "#") (next : List Char) : Admits d text next := by
  refine ⟨fun c _ hmem => ?_, fun h => ?_⟩
  · obtain ⟨m, hm, hlast, -⟩ := push_mem_allMarks hmem
    exact hlongest m hm hlast
  · rcases h with ⟨h | h, -⟩ | ⟨h, -⟩
    · exact absurd h hother.1
    · exact absurd h hother.2.1
    · exact absurd h hother.2.2

theorem percent_outcome (rest : List Char) :
    Outcome d ('%' :: rest) (scanPercent d rest).1 (scanPercent d rest).2 := by
  have hadmits := admits_of_longest (d := d) "%" (by decide) (by decide)
  have houtcome := operator_outcome (d := d) "%" true
    (fun next _ => ?_) ⟨fun _ => ⟨'%', rfl, by decide⟩, fun _ => rfl⟩ (hadmits rest) (by decide)
    (by decide)
  · rwa [← scanPercent_eq] at houtcome
  · rw [← scanPercent_eq]
    rfl

/-- The characters that make an operator longer. -/
theorem push_notMem_allMarks {text : String} (longer : List Char)
    (hlonger : ∀ m ∈ allMarks, m.toList.dropLast = text.toList → ∃ c ∈ longer,
      m.toList.getLast? = some c) {c : Char} (hc : c ∉ longer) : text.push c ∉ allMarks := by
  intro hmem
  obtain ⟨m, hm, hdrop, hlast⟩ := push_mem_allMarks hmem
  obtain ⟨a, ha, hlast'⟩ := hlonger m hm hdrop
  rw [hlast] at hlast'
  exact hc (Option.some.inj hlast' ▸ ha)

private theorem not_admits {text : String} {c : Char} {next : List Char} (h : Admits d text (c :: next))
    (hmem : text.push c ∈ allMarks) : False :=
  h.unextended c rfl hmem

theorem numberSign_eq {next : List Char} (hd : d ≠ .mysql) (h : Admits d "#" next) :
    scanNumberSign d next = scanOperator d "#" true next := by
  unfold scanNumberSign
  split
  · exact absurd rfl hd
  · exact (not_admits h (by decide)).elim
  · exact (not_admits h (by decide)).elim
  · exact (not_admits h (by decide)).elim
  · rw [scanOperator_plain (by decide) fun _ => stops_cons.2 (by cases d <;> rfl)]
  · rename_i c rest _ _ _ hblank
    exact absurd (h.blank (Or.inr ⟨rfl, rfl⟩) c rfl) hblank
  · rfl

/-- An operator that starts with a number sign. -/
private theorem signOperator_outcome (text : String) (more : List Char) {rest : List Char}
    (htext : text.toList = '#' :: more)
    (hread : ∀ next, Admits d text next →
      scanNumberSign d (more ++ next) = scanOperator d text true next)
    (hadmits : Admits d text rest) :
    Outcome d ('#' :: (more ++ rest)) (scanNumberSign d (more ++ rest)).1
      (scanNumberSign d (more ++ rest)).2 := by
  have hsign : true = true ↔ ∃ c ∈ text.toList.head?, c ∈ continuedMarks := by
    rw [htext]
    exact ⟨fun _ => ⟨'#', rfl, by decide⟩, fun _ => rfl⟩
  have hne : ∀ other : String, other.toList.head? ≠ some '#' → text ≠ other := by
    rintro other hother rfl
    exact hother (by rw [htext]; rfl)
  rw [hread rest hadmits, ← List.cons_append, ← htext]
  refine operator_outcome text true (fun next h => ?_) hsign hadmits (hne _ (by decide))
    (hne _ (by decide))
  rw [← hread next h, htext]
  rfl

private theorem signGreater_outcome (hd : d ≠ .mysql) (rest : List Char) :
    Outcome d ('#' :: '>' :: rest) (scanNumberSign d ('>' :: rest)).1
      (scanNumberSign d ('>' :: rest)).2 := by
  by_cases htwo : rest.head? = some '>'
  · obtain ⟨rest, rfl⟩ := List.head?_eq_some_iff.1 htwo
    refine signOperator_outcome "#>>" ['>', '>'] rfl (fun next _ => ?_)
      (admits_of_longest "#>>" (by decide) (by decide) rest)
    cases d <;> first | rfl | exact absurd rfl hd
  · have hadmits : Admits d "#>" rest := by
      refine ⟨fun c hc => push_notMem_allMarks ['>'] (by decide) ?_, by simp⟩
      rintro hmem
      obtain rfl := List.mem_singleton.1 hmem
      exact htwo hc
    refine signOperator_outcome "#>" ['>'] rfl (fun next h => ?_) hadmits
    cases next with
    | nil => cases d <;> first | rfl | exact absurd rfl hd
    | cons c next =>
      have hc : c ≠ '>' := by
        rintro rfl
        exact not_admits h (by decide)
      cases d <;> simp_all [scanNumberSign]

/-- Where nothing but a blank may follow, any other character that extends no operator starts a
word. -/
private theorem blank_of_not_admits {text : String} {c : Char} {rest : List Char}
    (hadmits : ¬ Admits d text (c :: rest)) (hunextended : text.push c ∉ allMarks) :
    ((text = "@" ∨ text = "@@") ∧ isWordStart d '@' = true ∨ text = "#" ∧ d = .tsql) ∧ c ≠ ' ' := by
  constructor
  · by_contra hne
    exact hadmits ⟨by simpa using hunextended, fun h => absurd h hne⟩
  · rintro rfl
    exact hadmits ⟨by simpa using hunextended, by simp⟩

theorem numberSign_outcome (rest : List Char) :
    Outcome d ('#' :: rest) (scanNumberSign d rest).1 (scanNumberSign d rest).2 := by
  by_cases hd : d = .mysql
  · subst hd
    have hcs : '#' :: rest = "#".toList ++ rest := rfl
    exact lineComment_outcome hcs fun rest => rfl
  by_cases hadmits : Admits d "#" rest
  · exact signOperator_outcome "#" [] rfl (fun next h => numberSign_eq hd h) hadmits
  cases rest with
  | nil => exact absurd ⟨by simp, by simp⟩ hadmits
  | cons c rest =>
    by_cases hdash : c = '-'
    · subst hdash
      refine signOperator_outcome "#-" ['-'] rfl (fun next _ => ?_)
        (admits_of_longest "#-" (by decide) (by decide) rest)
      cases d <;> first | rfl | exact absurd rfl hd
    by_cases hgreater : c = '>'
    · subst hgreater
      exact signGreater_outcome hd rest
    -- only the dialect with words behind the sign admits nothing but a blank
    have hunextended : "#".push c ∉ allMarks :=
      push_notMem_allMarks ['-', '>'] (by decide) (by simp [hdash, hgreater])
    obtain ⟨hword, hblank⟩ := blank_of_not_admits hadmits hunextended
    obtain rfl : d = .tsql := by simpa using hword
    have hread : ∀ rest, scanNumberSign .tsql (c :: rest) = scanWord .tsql ['#', c] rest := by
      intro rest
      unfold scanNumberSign
      split <;> simp_all
    rw [hread]
    show Outcome .tsql (['#', c] ++ rest) _ _
    refine word_outcome (by simp) fun next _ => ?_
    rw [← hread]
    rfl

/-! ## At signs and question marks -/

/-- An operator that no custom operator continues. -/
theorem fixedOperator_outcome (text : String) {rest : List Char}
    (hreach : ∀ next, Admits d text next → Begins d (text.toList ++ next) (.operator text) next)
    {c : Char} (hhead : text.toList.head? = some c) (hc : c ∉ continuedMarks)
    (hrest : Admits d text rest) (hlast : text ≠ "?") :
    Outcome d (text.toList ++ rest) (.operator text) rest := by
  have hfixed : ¬ ∃ c ∈ text.toList.head?, c ∈ continuedMarks := by
    rw [hhead]
    rintro ⟨a, ⟨⟩, hmark⟩
    exact hc hmark
  exact Outcome.exact rfl trivial (hrest.apart (fun h => absurd h hfixed) hlast)
    fun next hnext => hreach next (OperatorApart.admits hnext)

theorem doubleAt_eq {next : List Char} (h : Admits d "@@" next) :
    scanAtSign d ('@' :: next) = (.operator "@@", next) := by
  cases next with
  | nil => rfl
  | cons c next =>
    by_cases hword : isWordStart d '@' = true
    · obtain rfl := h.blank (Or.inl ⟨Or.inr rfl, hword⟩) c rfl
      rfl
    · by_cases hc : c = ' '
      · subst hc
        rfl
      · simp [scanAtSign, hword]

theorem doubleAt_outcome (rest : List Char) :
    Outcome d ('@' :: '@' :: rest) (scanAtSign d ('@' :: rest)).1
      (scanAtSign d ('@' :: rest)).2 := by
  by_cases hadmits : Admits d "@@" rest
  · rw [doubleAt_eq hadmits]
    refine fixedOperator_outcome "@@" (fun next h => ?_) rfl (by decide) hadmits (by decide)
    exact congrArg Except.ok (doubleAt_eq h)
  · have hlongest : ∀ c, "@@".push c ∉ allMarks :=
      fun c => push_notMem_allMarks [] (by decide) List.not_mem_nil
    cases rest with
    | nil => exact absurd ⟨by simp, by simp⟩ hadmits
    | cons c rest =>
      have hword : isWordStart d '@' = true ∧ c ≠ ' ' := by
        simpa using blank_of_not_admits hadmits (hlongest c)
      have hread : ∀ rest, scanAtSign d ('@' :: c :: rest) = scanWord d ['@', '@', c] rest := by
        intro rest
        simp [scanAtSign, hword.1, hword.2]
      rw [hread]
      show Outcome d (['@', '@', c] ++ rest) _ _
      refine word_outcome (by simp) fun next _ => ?_
      rw [← hread]
      rfl

theorem at_eq {next : List Char} (h : Admits d "@" next) :
    scanAtSign d next = (.operator "@", next) := by
  cases next with
  | nil => rfl
  | cons c next =>
    have hnot : ∀ a, "@".push a ∈ allMarks → c ≠ a := by
      rintro a hmem rfl
      exact h.unextended c rfl hmem
    have hgreater := hnot '>' (by decide)
    have hquestion := hnot '?' (by decide)
    have hat := hnot '@' (by decide)
    by_cases hword : isWordStart d '@' = true
    · obtain rfl := h.blank (Or.inl ⟨Or.inl rfl, hword⟩) c rfl
      rfl
    · by_cases hc : c = ' '
      · subst hc
        rfl
      · simp [scanAtSign, hword]

theorem atSign_outcome (rest : List Char) :
    Outcome d ('@' :: rest) (scanAtSign d rest).1 (scanAtSign d rest).2 := by
  by_cases hadmits : Admits d "@" rest
  · rw [at_eq hadmits]
    refine fixedOperator_outcome "@" (fun next h => ?_) rfl (by decide) hadmits (by decide)
    exact congrArg Except.ok (at_eq h)
  cases rest with
  | nil => exact absurd ⟨by simp, by simp⟩ hadmits
  | cons c rest =>
    by_cases hat : c = '@'
    · subst hat
      exact doubleAt_outcome rest
    by_cases hgreater : c = '>'
    · subst hgreater
      exact fixedOperator_outcome "@>" (fun next _ => rfl) rfl (by decide)
        (admits_of_longest "@>" (by decide) (by decide) rest) (by decide)
    by_cases hquestion : c = '?'
    · subst hquestion
      exact fixedOperator_outcome "@?" (fun next _ => rfl) rfl (by decide)
        (admits_of_longest "@?" (by decide) (by decide) rest) (by decide)
    -- no operator goes on with the next character, so the sign starts a word
    have hunextended : "@".push c ∉ allMarks := by
      refine push_notMem_allMarks ['>', '?', '@'] (by decide) ?_
      simp [hgreater, hquestion, hat]
    have hword : isWordStart d '@' = true ∧ c ≠ ' ' := by
      simpa using blank_of_not_admits hadmits hunextended
    have hread : ∀ rest, scanAtSign d (c :: rest) = scanWord d ['@', c] rest := by
      intro rest
      simp [scanAtSign, hword.1, hword.2]
    rw [hread]
    show Outcome d (['@', c] ++ rest) _ _
    refine word_outcome (by simp) fun next _ => ?_
    rw [← hread]
    rfl

/-- A question mark before digits is a parameter. -/
private theorem parameter_outcome (rest : List Char) (hd : d ≠ .postgres) :
    Outcome d ('?' :: rest) (scanQuestionMark d rest).1 (scanQuestionMark d rest).2 := by
  have hread : ∀ rest, scanQuestionMark d rest =
      (.placeholder ("?" ++ String.ofList (rest.takeWhile Text.isNumeric)),
        rest.dropWhile Text.isNumeric) := by
    intro rest
    cases d <;> first | rfl | exact absurd rfl hd
  have hdigits : ∀ c ∈ rest.takeWhile Text.isNumeric, Text.isNumeric c = true :=
    fun c hc => List.mem_takeWhile_imp hc
  have happ : ∀ next, Apart d (.placeholder ("?" ++ String.ofList (rest.takeWhile Text.isNumeric)))
      next ↔ Stops Text.isNumeric next := by
    intro next
    simp [Apart]
  rw [hread]
  refine Outcome.exact (by simp) trivial ((happ _).2 (stops_dropWhile _ _)) fun next hnext => ?_
  have hnext := (happ next).1 hnext
  have hscan : scan d '?' (rest.takeWhile Text.isNumeric ++ next) =
      .ok (scanQuestionMark d (rest.takeWhile Text.isNumeric ++ next)) := rfl
  rw [hread, takeWhile_append_stops hdigits hnext, dropWhile_append_stops hdigits hnext] at hscan
  simpa [Begins] using hscan

theorem questionMark_outcome (rest : List Char) :
    Outcome d ('?' :: rest) (scanQuestionMark d rest).1 (scanQuestionMark d rest).2 := by
  by_cases hd : d ≠ .postgres
  · exact parameter_outcome rest hd
  obtain rfl := Classical.not_not.1 hd
  -- in PostgreSQL the question mark is an operator, which is read back at the end of a text only
  have hrereads : ∀ next, OperatorApart .postgres "?" next →
      Begins .postgres ((operator "?").chars ++ next) (.operator "?") next := by
    intro next hnext
    rw [hnext.last rfl]
    rfl
  cases rest with
  | nil =>
    have happ : OperatorApart .postgres "?" [] :=
      ⟨by simp, fun _ => stops_nil _, fun _ => rfl, by simp⟩
    exact Outcome.exact rfl trivial happ hrereads
  | cons c rest =>
    by_cases hbar : c = '|'
    · subst hbar
      exact fixedOperator_outcome "?|" (fun next _ => rfl) rfl (by decide)
        (admits_of_longest "?|" (by decide) (by decide) rest) (by decide)
    by_cases hamp : c = '&'
    · subst hamp
      exact fixedOperator_outcome "?&" (fun next _ => rfl) rfl (by decide)
        (admits_of_longest "?&" (by decide) (by decide) rest) (by decide)
    have hread : scanQuestionMark .postgres (c :: rest) = (.operator "?", rest) := by
      simp [scanQuestionMark, hbar, hamp]
    rw [hread]
    exact ⟨.dropping rfl, fun _ => hrereads⟩

end Token

end ReportSql
