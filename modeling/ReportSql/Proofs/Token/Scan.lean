import ReportSql.Proofs.Token.Marks

/-!
# The next token

Every rule of the tokenizer has the same outcome: what a token was read from is
known, and what it prints is read as the token itself before every text that does
not run into it. A token that is read from its own characters is therefore
characterized by the text after it.

## Main results

* `Token.scan_outcome` - the outcome of reading one token
* `Token.begins_iff_apart` - a read token is read back exactly before the texts that
  do not run into it
-/

namespace ReportSql

namespace Token

variable {d : Dialect}

/-! ## Literals behind a letter -/

private theorem upper_letters : ∀ l ∈ literalLetters,
    (l.toLower = 'b' → l.toUpper = 'B') ∧ (l.toLower = 'n' → l.toUpper = 'N') ∧
      (l.toLower = 'x' → l.toUpper = 'X') ∧ (l.toLower = 'e' → l.toUpper = 'E') ∧
        (l.toLower = 'u' → l.toUpper = 'U') := by
  decide

private theorem upper_mem : ∀ l ∈ literalLetters, l.toUpper ∈ literalLetters := by
  decide

section Letter

variable {letter : Char} {whole : List Char}

theorem QuotedBy.scanLetter {kind : LiteralKind} {escapes : Bool} (h : QuotedBy d letter kind escapes)
    (rest : List Char) : Token.scanLetter d letter whole (kind.quote :: rest) =
      scanLiteral kind escapes (kind.quote :: rest) := by
  cases h <;> simp [Token.scanLetter, LiteralKind.quote, *]

/-- The letter is printed in upper case, and then it introduces the same kind. -/
theorem QuotedBy.upper {kind : LiteralKind} {escapes : Bool} (h : QuotedBy d letter kind escapes)
    (hl : letter ∈ literalLetters) :
    QuotedBy d letter.toUpper kind escapes ∧ kind.letters.toList = [letter.toUpper] := by
  obtain ⟨hb, hn, hx, -, -⟩ := upper_letters letter hl
  cases h with
  | bytes lower known =>
    rw [hb lower]
    exact ⟨.bytes (by decide) known, rfl⟩
  | bytesDouble lower known =>
    rw [hb lower]
    exact ⟨.bytesDouble (by decide) known, rfl⟩
  | national lower =>
    rw [hn lower]
    exact ⟨.national (by decide), rfl⟩
  | hexadecimal lower =>
    rw [hx lower]
    exact ⟨.hexadecimal (by decide), rfl⟩

theorem QuotedBy.plain {kind : LiteralKind} {escapes : Bool} (h : QuotedBy d letter kind escapes)
    (content : String) : Plain d (.literal kind content) := by
  cases h <;> trivial

theorem scanLetter_escaped (h : letter.toLower = 'e') (content : List Char) :
    scanLetter d letter whole ('\'' :: content) =
      match escapedContent? (content.length + 1) content with
      | some (decoded, left) => .ok (.literal .escaped (String.ofList decoded), left)
      | none => .error ⟨.unterminatedEscapedString, whole⟩ := by
  unfold scanLetter
  generalize letter.toLower = lower at h ⊢
  subst h
  rfl

theorem scanLetter_unicode (h : letter.toLower = 'u') (content : List Char) :
    scanLetter .postgres letter whole ('&' :: '\'' :: content) =
      match unicodeContent (content.length + 1) content with
      | .ok (decoded, left) => .ok (.literal .unicode (String.ofList decoded), left)
      | .error fault => .error fault := by
  unfold scanLetter
  generalize letter.toLower = lower at h ⊢
  subst h
  rfl

end Letter

private theorem escaped_outcome {letter : Char} {rest left : List Char} {t : Token}
    (hl : letter ∈ literalLetters) (hlower : letter.toLower = 'e')
    (h : scanLetter d letter (letter :: '\'' :: rest) ('\'' :: rest) = .ok (t, left)) :
    Outcome d (letter :: '\'' :: rest) t left := by
  have hupper := (upper_letters letter hl).2.2.2.1 hlower
  rw [scanLetter_escaped hlower] at h
  split at h
  · rename_i content left' hread
    obtain ⟨rfl, rfl⟩ := Prod.mk.inj (Except.ok.inj h)
    have hletters : LiteralKind.escaped.letters.toList = letter.toUpper :: [] := by
      rw [hupper]
      rfl
    refine decodedLiteral_outcome hl hletters rfl (fun _ => Iff.rfl) ?_ (escapedContent?_source hread)
    intro next hlit hnext
    have hfuel : content.length < (content ++ '\'' :: next).length + 1 := by
      simp only [List.length_append]
      omega
    have hchange := escapedContent?_literal hlit hnext hfuel
    rw [hupper, List.nil_append, scan_letter (by decide), scanLetter_escaped (by decide), hchange]
  · simp at h

private theorem unicode_outcome {letter : Char} {rest left : List Char} {t : Token}
    (hl : letter ∈ literalLetters) (hlower : letter.toLower = 'u')
    (h : scanLetter .postgres letter (letter :: '&' :: '\'' :: rest) ('&' :: '\'' :: rest) =
      .ok (t, left)) :
    Outcome .postgres (letter :: '&' :: '\'' :: rest) t left := by
  have hupper := (upper_letters letter hl).2.2.2.2 hlower
  rw [scanLetter_unicode hlower] at h
  split at h
  · rename_i content left' hread
    obtain ⟨rfl, rfl⟩ := Prod.mk.inj (Except.ok.inj h)
    have hletters : LiteralKind.unicode.letters.toList = letter.toUpper :: ['&'] := by
      rw [hupper]
      rfl
    refine decodedLiteral_outcome hl hletters rfl (fun _ => Iff.rfl) ?_ (unicodeContent_source hread)
    intro next hlit hnext
    have hfuel : content.length < (content ++ '\'' :: next).length + 1 := by
      simp only [List.length_append]
      omega
    have hchange := unicodeContent_literal hlit hnext hfuel
    rw [hupper, scan_letter (by decide), List.singleton_append, scanLetter_unicode (by decide),
      hchange]
  · simp at h

theorem letter_outcome {letter : Char} {rest left : List Char} {t : Token}
    (hl : letter ∈ literalLetters)
    (h : scanLetter d letter (letter :: rest) rest = .ok (t, left)) :
    Outcome d (letter :: rest) t left := by
  by_cases hintro : introducesLiteral d letter rest = false
  · rw [scanLetter_word hintro] at h
    have houtcome := letterWord_outcome hl hintro
    rwa [Except.ok.inj h] at houtcome
  rw [Bool.not_eq_false, introducesLiteral_iff] at hintro
  obtain ⟨kind, escapes, content, hquoted, rfl⟩ | ⟨content, hlower, rfl⟩ |
    ⟨content, hlower, rfl, rfl⟩ := hintro
  · obtain ⟨hupper, hletters⟩ := hquoted.upper hl
    rw [hquoted.scanLetter] at h
    refine letterLiteral_outcome kind hl hletters hquoted.plain (fun rest => ?_) h
    exact (scan_letter (upper_mem letter hl) _).trans (hupper.scanLetter rest)
  · exact escaped_outcome hl hlower h
  · exact unicode_outcome hl hlower h

/-! ## Characters that stand for themselves -/

/-- The rules that are left for a character which starts no literal, name, number or operator. -/
theorem scan_last {c : Char} {rest : List Char} (hmarks : c ∉ leadingMarks)
    (hletters : c ∉ literalLetters) (hname : opensName d c = false) (hdouble : c ≠ '"')
    (hnumber : c.isDigit = false ∧ c ≠ '.') (hfind : findOperator? (c :: rest) = none) :
    scan d c rest =
      match punctuationOf? c with
      | some mark => .ok (.punctuation mark, rest)
      | none =>
        if isWordStart d c then .ok (scanWord d [c] rest)
        else if c = '$' then scanDollar rest
        else if Text.isBlank c then .ok (.blank .space, rest)
        else .ok (.other c, rest) := by
  have hknown : scanKnownOperator? d (c :: rest) = none := by
    rw [scanKnownOperator?_eq, hfind]
    rfl
  rw [scan_plain hmarks, scanPlain_operators hletters hname hdouble hnumber]
  generalize scanKnownOperator? d (c :: rest) = known at hknown ⊢
  subst hknown
  rfl

theorem punctuationOf?_eq_some {c : Char} {mark : Punctuation} (h : punctuationOf? c = some mark) :
    c = mark.char ∧ mark ≠ .period := by
  unfold punctuationOf? at h
  split at h
  all_goals simp_all
  all_goals
    subst h
    exact ⟨rfl, by decide⟩

/-- A mark that is no operator. Only a colon is one together with what follows it. -/
private theorem mark_outcome {mark : Punctuation} {rest : List Char} (hperiod : mark ≠ .period)
    (hfind : findOperator? (mark.char :: rest) = none)
    (hscan : ∀ next, findOperator? (mark.char :: next) = none →
      scan d mark.char next = .ok (.punctuation mark, next)) :
    Outcome d (mark.char :: rest) (.punctuation mark) rest := by
  by_cases hcolon : mark = .colon
  · subst hcolon
    refine Outcome.exact (by simp) trivial (findOperator?_colon.1 hfind) fun next hnext => ?_
    rw [chars_punctuation]
    exact hscan next (findOperator?_colon.2 hnext)
  · have happ : ∀ next, Apart d (.punctuation mark) next := by
      intro next
      cases mark <;> first | exact absurd rfl hperiod | trivial
    have hc : mark.char ≠ ':' := by
      cases mark <;> first | exact absurd rfl hcolon | decide
    refine Outcome.exact (by simp) trivial (happ rest) fun next _ => ?_
    rw [chars_punctuation]
    exact hscan next (findOperator?_none_change hc hfind next)

theorem last_outcome {c : Char} {rest left : List Char} {t : Token} (hmarks : c ∉ leadingMarks)
    (hletters : c ∉ literalLetters) (hname : opensName d c = false) (hdouble : c ≠ '"')
    (hnumber : c.isDigit = false ∧ c ≠ '.') (hfind : findOperator? (c :: rest) = none)
    (h : scan d c rest = .ok (t, left)) : Outcome d (c :: rest) t left := by
  have hscan : ∀ next, findOperator? (c :: next) = none → _ :=
    fun next => @scan_last d c next hmarks hletters hname hdouble hnumber
  rw [hscan rest hfind] at h
  -- a mark of punctuation, the start of a word, a dollar sign, a blank or any other character
  cases hmark : punctuationOf? c with
  | some mark =>
    obtain ⟨rfl, hperiod⟩ := punctuationOf?_eq_some hmark
    rw [hmark] at h hscan
    obtain ⟨rfl, rfl⟩ := Prod.mk.inj (Except.ok.inj h)
    exact mark_outcome hperiod hfind hscan
  | none =>
    rw [hmark] at h hscan
    have hc : c ≠ ':' := by
      rintro rfl
      exact absurd hmark (by decide)
    have hscan := fun next => hscan next (findOperator?_none_change hc hfind next)
    dsimp only at h hscan
    split at h
    · rename_i hword
      simp only [if_pos hword] at hscan
      have houtcome : Outcome d ([c] ++ rest) (scanWord d [c] rest).1 (scanWord d [c] rest).2 := by
        refine word_outcome (fun letter hl hword => ?_) fun next _ => hscan _
        obtain ⟨rfl, -⟩ := List.cons.inj hword
        exact absurd hl hletters
      rwa [Except.ok.inj h] at houtcome
    · rename_i hword
      simp only [if_neg hword] at hscan
      split at h
      · rename_i hdollar
        subst hdollar
        exact dollar_outcome hscan h
      · rename_i hdollar
        simp only [if_neg hdollar] at hscan
        split at h
        · rename_i hblank
          obtain ⟨rfl, rfl⟩ := Prod.mk.inj (Except.ok.inj h)
          have hspace : c ≠ Blank.space.char := by
            rintro rfl
            exact hmarks (by decide)
          have hsource : Source d (c :: [] ++ rest) (.blank .space) rest := Source.blank hspace hspace hblank
          exact ⟨hsource, fun _ next _ => rfl⟩
        · rename_i hblank
          obtain ⟨rfl, rfl⟩ := Prod.mk.inj (Except.ok.inj h)
          simp only [if_neg hblank] at hscan
          refine Outcome.exact (by simp) trivial trivial fun next _ => ?_
          rw [chars_other]
          exact hscan next

/-! ## The outcome -/

private theorem take_two_ne {a b c : Char} {rest : List Char} (h : c = a → rest.head? ≠ some b) :
    (c :: rest).take 2 ≠ [a, b] := by
  intro htake
  cases rest with
  | nil => simp at htake
  | cons x rest =>
    obtain ⟨rfl, rfl⟩ : c = a ∧ x = b := by simpa using htake
    exact h rfl rfl

private theorem doubleQuote_outcome {rest left : List Char} {t : Token}
    (hname : ¬ opensName d '"' = true) (h : scan d '"' rest = .ok (t, left)) :
    Outcome d ('"' :: rest) t left := by
  have hread : ∀ rest, scan d '"' rest = scanLiteral .double (escapesStrings d) ('"' :: rest) := by
    intro rest
    rw [scan_plain (by decide), scanPlain, if_neg (by decide), if_neg hname, if_pos rfl]
  rw [hread] at h
  exact bareLiteral_outcome .double rfl (fun _ => trivial) hread h

private theorem plain_outcome {c : Char} {rest left : List Char} {t : Token}
    (hmarks : c ∉ leadingMarks ∨ c = '-' ∧ rest.head? ≠ some '-' ∨ c = '/' ∧ rest.head? ≠ some '*')
    (h : scanPlain d c rest = .ok (t, left)) : Outcome d (c :: rest) t left := by
  have hscan : scan d c rest = .ok (t, left) := by
    rcases hmarks with hmarks | ⟨rfl, hrest⟩ | ⟨rfl, hrest⟩
    · rwa [scan_plain hmarks]
    · rwa [scan_minus hrest]
    · rwa [scan_slash hrest]
  -- in the order in which the scanner tries its rules
  by_cases hletters : c ∈ literalLetters
  · rw [scan_letter hletters] at hscan
    exact letter_outcome hletters hscan
  by_cases hname : opensName d c = true
  · rw [scan_opensName hname] at hscan
    exact quotedName_outcome hname hscan
  by_cases hdouble : c = '"'
  · subst hdouble
    exact doubleQuote_outcome hname hscan
  by_cases hnumber : c.isDigit = true ∨ c = '.'
  · have hbegins := begins_number (d := d) (show c ∈ (c :: rest).head? from rfl) hnumber
    have hread : scan d c rest = .ok (scanNumber d (c :: rest)) := hbegins
    rw [hread] at hscan
    have houtcome : Outcome d (c :: rest) (scanNumber d (c :: rest)).1
        (scanNumber d (c :: rest)).2 := number_outcome hnumber
    rwa [Except.ok.inj hscan] at houtcome
  have hname : opensName d c = false := Bool.eq_false_iff.2 hname
  have hnumber : c.isDigit = false ∧ c ≠ '.' := by
    simpa [not_or, Bool.not_eq_true] using hnumber
  have hcomment : (c :: rest).take 2 ≠ ['-', '-'] ∧ (c :: rest).take 2 ≠ ['/', '*'] := by
    rcases hmarks with hmarks | ⟨rfl, hrest⟩ | ⟨rfl, hrest⟩
    · refine ⟨take_two_ne ?_, take_two_ne ?_⟩ <;> rintro rfl <;> exact absurd (by decide) hmarks
    · exact ⟨take_two_ne fun _ => hrest, take_two_ne fun h => absurd h (by decide)⟩
    · exact ⟨take_two_ne fun h => absurd h (by decide), take_two_ne fun _ => hrest⟩
  cases hfind : findOperator? (c :: rest) with
  | some entry =>
    have hknown : scanKnownOperator? d (c :: rest) =
        some (scanOperator d entry.1 entry.2 ((c :: rest).drop entry.1.length)) := by
      rw [scanKnownOperator?_eq, hfind]
      rfl
    rw [scanPlain_operators hletters hname hdouble hnumber, hknown] at h
    rw [Except.ok.inj h] at hknown
    exact knownOperator_outcome hknown hcomment.1 hcomment.2
  | none =>
    have hmarks : c ∉ leadingMarks := by
      rcases hmarks with hmarks | ⟨rfl, -⟩ | ⟨rfl, -⟩
      · exact hmarks
      · exact absurd (by simp) (List.find?_eq_none.1 hfind ("-", true) (by decide))
      · exact absurd (by simp) (List.find?_eq_none.1 hfind ("/", false) (by decide))
    exact last_outcome hmarks hletters hname hdouble hnumber hfind hscan

private theorem blank_outcome (kind : Blank) (cs : List Char) :
    Outcome d (kind.char :: cs) (.blank kind) cs := by
  refine Outcome.exact (by simp) trivial trivial fun next _ => ?_
  rw [chars_blank]
  cases kind <;> rfl

/-- A carriage return is read as a line feed, with one behind it or without. -/
private theorem break_outcome (skipped cs : List Char) :
    Outcome d ('\r' :: skipped ++ cs) (.blank .newline) cs :=
  ⟨.blank (by decide) (by decide) (by decide), (blank_outcome .newline cs).rereads⟩

theorem scan_outcome {c : Char} {rest left : List Char} {t : Token}
    (h : scan d c rest = .ok (t, left)) : Outcome d (c :: rest) t left := by
  unfold scan at h
  split at h
  · obtain ⟨rfl, rfl⟩ := Prod.mk.inj (Except.ok.inj h)
    exact blank_outcome .space _
  · obtain ⟨rfl, rfl⟩ := Prod.mk.inj (Except.ok.inj h)
    exact blank_outcome .tab _
  · obtain ⟨rfl, rfl⟩ := Prod.mk.inj (Except.ok.inj h)
    exact blank_outcome .newline _
  · obtain ⟨rfl, rfl⟩ := Prod.mk.inj (Except.ok.inj h)
    exact break_outcome ['\n'] _
  · obtain ⟨rfl, rfl⟩ := Prod.mk.inj (Except.ok.inj h)
    exact break_outcome [] _
  · exact bareLiteral_outcome .single rfl (fun _ => trivial) (fun _ => rfl) h
  · rename_i rest
    have houtcome : Outcome d ('-' :: '-' :: rest) (scanLineComment "--" rest).1
        (scanLineComment "--" rest).2 := by
      have hcs : '-' :: '-' :: rest = "--".toList ++ rest := rfl
      exact lineComment_outcome hcs fun _ => rfl
    rwa [Except.ok.inj h] at houtcome
  · exact blockComment_outcome h
  · have houtcome := percent_outcome (d := d) rest
    rwa [Except.ok.inj h] at houtcome
  · have houtcome := numberSign_outcome (d := d) rest
    rwa [Except.ok.inj h] at houtcome
  · have houtcome := atSign_outcome (d := d) rest
    rwa [Except.ok.inj h] at houtcome
  · have houtcome := questionMark_outcome (d := d) rest
    rwa [Except.ok.inj h] at houtcome
  · rename_i hspace htab hnewline hreturn hquote hpercent hnumber hat hquestion _ hdash hslash
    refine plain_outcome ?_ h
    by_cases hc : c = '-'
    · refine Or.inr (Or.inl ⟨hc, fun hhead => ?_⟩)
      obtain ⟨after, hafter⟩ := List.head?_eq_some_iff.1 hhead
      exact hdash after hc hafter
    by_cases hc' : c = '/'
    · refine Or.inr (Or.inr ⟨hc', fun hhead => ?_⟩)
      obtain ⟨after, hafter⟩ := List.head?_eq_some_iff.1 hhead
      exact hslash after hc' hafter
    refine Or.inl fun hmem => ?_
    simp only [leadingMarks, List.mem_cons, List.not_mem_nil, or_false] at hmem
    grind

/-- At the end of a text nothing runs into a token. -/
theorem apart_nil (t : Token) : Apart d t [] := by
  have hintro : ∀ letter, introducesLiteral d letter [] = false := by
    intro letter
    unfold introducesLiteral
    split <;> simp_all
  unfold Apart
  split
  · exact ⟨stops_nil _, fun letter _ _ => hintro letter⟩
  · simp
  · intro _
    exact ⟨stops_nil _, by simp, by simp, fun _ _ => rfl, by simp, fun _ _ _ =>
      Or.inr (Or.inr (stops_nil _))⟩
  · simp
  · split
    · exact stops_nil _
    · exact ⟨stops_nil _, by simp⟩
  · exact stops_nil _
  · simp
  · exact ⟨by simp, fun _ => stops_nil _, fun _ => rfl, by simp⟩
  · exact Or.inl rfl
  · trivial

/-- A token that was read from exactly what it prints needs no escape, and the text after it does not
run into it. -/
theorem Source.of_chars {cs left : List Char} {t : Token} (h : Source d cs t left)
    (hcs : cs = t.chars ++ left) : Plain d t ∧ Apart d t left := by
  cases h with
  | exact plain apart => exact ⟨plain, apart⟩
  | blank other wide =>
    rw [chars_blank] at hcs
    exact absurd (List.cons.inj hcs).1 other
  | @literal kind letter marks content value left letters known apart printed =>
    exfalso
    rw [chars_literal, letters] at hcs
    have hlength := congrArg List.length hcs
    simp only [List.length_cons, List.length_append, List.length_nil] at hlength
    -- the literal is printed with another letter or with fewer characters
    rcases printed with ⟨-, hupper⟩ | hlt
    · exact hupper (List.cons.inj hcs).1.symm
    · omega
  | hexadecimal =>
    rw [chars_literal] at hcs
    exact absurd (List.cons.inj hcs).1 (by decide)
  | notEqual => exact absurd (List.cons.inj hcs).1 (by decide)
  | dropping =>
    have hlength := congrArg List.length hcs
    have hmark : (operator "?").chars = ['?'] := rfl
    rw [hmark] at hlength
    simp at hlength

/-- A token that was read is read back from what it prints exactly before the texts that do not run
into it. -/
theorem begins_iff_apart {cs left : List Char} {t : Token} (h : Begins d cs t left)
    (next : List Char) : Begins d (t.chars ++ next) t next ↔ Plain d t ∧ Apart d t next := by
  constructor
  · intro hnext
    cases htext : t.chars ++ next with
    | nil =>
      rw [htext] at hnext
      exact hnext.elim
    | cons c rest =>
      rw [htext] at hnext
      exact (scan_outcome hnext).source.of_chars htext.symm
  · rintro ⟨plain, apart⟩
    cases cs with
    | nil => exact h.elim
    | cons c rest => exact (scan_outcome h).rereads plain next apart

/-- The characters that a token takes: at least as many as it prints, but for one that is printed
as a hexadecimal literal. -/
theorem begins_taken {cs left : List Char} {t : Token} (h : Begins d cs t left) :
    ∃ taken, cs = taken ++ left ∧ taken ≠ [] ∧
      (t.chars.length ≤ taken.length ∨
        cs.head? = some '0' ∧ (∃ more, t.chars = 'X' :: '\'' :: more) ∧
          t.chars.length = taken.length + 1) := by
  cases cs with
  | nil => exact h.elim
  | cons c rest =>
    have houtcome := scan_outcome h
    have hrereads := houtcome.rereads
    generalize htext : c :: rest = cs at houtcome
    cases houtcome.source with
    | exact plain apart =>
      refine ⟨t.chars, rfl, fun hnil => ?_, Or.inl le_rfl⟩
      have hread := hrereads plain [] (apart_nil t)
      rw [hnil] at hread
      exact hread
    | @blank kind a skipped left other wide =>
      exact ⟨a :: skipped, rfl, by simp, Or.inl (by simp)⟩
    | @literal kind letter marks content value left letters known apart printed =>
      refine ⟨letter :: (marks ++ kind.quote :: (content ++ [kind.quote])), by simp, by simp,
        Or.inl ?_⟩
      have hle : value.toList.length ≤ content.length := by
        rcases printed with ⟨rfl, -⟩ | hlt
        · exact le_rfl
        · exact hlt.le
      rw [chars_literal, letters]
      simp only [List.length_cons, List.length_append, List.length_nil]
      omega
    | @hexadecimal digits left =>
      -- the mark 0x is printed as X and two quotes
      refine ⟨'0' :: 'x' :: digits, rfl, by simp, Or.inr ⟨rfl, ⟨digits ++ ['\''], ?_⟩, ?_⟩⟩
      · simp [LiteralKind.letters, LiteralKind.quote]
      · simp [LiteralKind.letters]
    | @notEqual left => exact ⟨['!', '='], rfl, by simp, Or.inl (by decide)⟩
    | @dropping a left => exact ⟨['?', a], rfl, by simp, Or.inl (Nat.le_succ 1)⟩

end Token

end ReportSql
