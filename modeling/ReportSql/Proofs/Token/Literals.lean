import ReportSql.Proofs.Token.Apart

/-!
# Words, literals and comments

The outcome of the readers that take one delimited piece of text: words, quoted
names, the kinds of string literals, strings between dollar signs and comments.

## Main definitions

* `Token.QuotedBy` - the kinds of literals that a letter introduces and a quote ends

## Main results

* `Token.introducesLiteral_iff` - the texts behind a letter that make it introduce a literal
-/

namespace ReportSql

namespace Token

variable {d : Dialect}

/-! ## Words -/

theorem stops_wordPart_of_mark {c : Char} (next : List Char)
    (hc : c ∈ ['\'', '"', '&', ' ', '\n', '\t', '<', '.', ':']) :
    Stops (isWordPart d) (c :: next) := by
  simp only [List.mem_cons, List.not_mem_nil, or_false] at hc
  rw [stops_cons]
  rcases hc with rfl | rfl | rfl | rfl | rfl | rfl | rfl | rfl | rfl <;> cases d <;> rfl

/-- The kinds of literals behind a letter that are read up to their quote, and whether a backslash takes
the next character with it. -/
inductive QuotedBy (d : Dialect) (letter : Char) : LiteralKind → Bool → Prop where
  | bytes (lower : letter.toLower = 'b') (known : d = .postgres ∨ d = .mysql) :
      QuotedBy d letter .bytes false
  | bytesDouble (lower : letter.toLower = 'b') (known : d = .postgres ∨ d = .mysql) :
      QuotedBy d letter .bytesDouble false
  | national (lower : letter.toLower = 'n') : QuotedBy d letter .national true
  | hexadecimal (lower : letter.toLower = 'x') : QuotedBy d letter .hexadecimal true

/-- A letter introduces a literal that is read up to its quote, or one of which the content is decoded. -/
theorem introducesLiteral_iff {letter : Char} {next : List Char} :
    introducesLiteral d letter next = true ↔
      (∃ kind escapes content, QuotedBy d letter kind escapes ∧ next = kind.quote :: content) ∨
        (∃ content, letter.toLower = 'e' ∧ next = '\'' :: content) ∨
          ∃ content, letter.toLower = 'u' ∧ d = .postgres ∧ next = '&' :: '\'' :: content := by
  constructor
  · intro h
    unfold introducesLiteral at h
    split at h
    · rename_i content hlower
      exact .inl ⟨_, _, content, .bytes hlower (by simpa using h), rfl⟩
    · rename_i content hlower
      exact .inl ⟨_, _, content, .bytesDouble hlower (by simpa using h), rfl⟩
    · rename_i content hlower
      exact .inl ⟨_, _, content, .national hlower, rfl⟩
    · rename_i content hlower
      exact .inl ⟨_, _, content, .hexadecimal hlower, rfl⟩
    · rename_i content hlower
      exact .inr (.inl ⟨content, hlower, rfl⟩)
    · rename_i content hlower
      exact .inr (.inr ⟨content, hlower, by simpa using h, rfl⟩)
    · exact Bool.noConfusion h
  · rintro (⟨kind, escapes, content, hquoted, rfl⟩ | ⟨content, hlower, rfl⟩ |
      ⟨content, hlower, rfl, rfl⟩)
    · cases hquoted <;> simp [introducesLiteral, LiteralKind.quote, *]
    · simp [introducesLiteral, hlower]
    · simp [introducesLiteral, hlower]

/-- Only a mark after it makes a letter introduce a literal. -/
theorem introducesLiteral_of_wordPart {letter c : Char} {next : List Char}
    (hc : isWordPart d c = true) : introducesLiteral d letter (c :: next) = false := by
  have hnot : ∀ m ∈ ['\'', '"', '&', ' ', '\n', '\t', '<', '.', ':'], c ≠ m := by
    rintro m hm rfl
    rw [stops_cons.1 (stops_wordPart_of_mark [] hm)] at hc
    exact Bool.noConfusion hc
  have hquote := hnot '\'' (by decide)
  have hdouble := hnot '"' (by decide)
  have hamp := hnot '&' (by decide)
  unfold introducesLiteral
  split <;> simp_all

/-- A word that is reached behind its first characters before every text that does not run into
it. -/
theorem word_outcome {start cs : List Char}
    (hintro : ∀ letter ∈ literalLetters, start ++ cs.takeWhile (isWordPart d) = [letter] →
      introducesLiteral d letter (cs.dropWhile (isWordPart d)) = false)
    (hreach : ∀ next,
      WordApart d (start ++ cs.takeWhile (isWordPart d)) next →
        Begins d (start ++ (cs.takeWhile (isWordPart d) ++ next))
          (scanWord d start (cs.takeWhile (isWordPart d) ++ next)).1
          (scanWord d start (cs.takeWhile (isWordPart d) ++ next)).2) :
    Outcome d (start ++ cs) (scanWord d start cs).1 (scanWord d start cs).2 := by
  have hparts : ∀ c ∈ cs.takeWhile (isWordPart d), isWordPart d c = true :=
    fun c hc => List.mem_takeWhile_imp hc
  refine Outcome.exact ?_ trivial ?_ fun next hnext => ?_
  · simp [scanWord]
  · exact ⟨stops_dropWhile _ _, by simpa [scanWord] using hintro⟩
  · have hnext : WordApart d (start ++ cs.takeWhile (isWordPart d)) next := by
      simpa [scanWord, Apart] using hnext
    have hread := hreach next hnext
    simp only [scanWord, takeWhile_append_stops hparts hnext.stops,
      dropWhile_append_stops hparts hnext.stops] at hread
    simpa [scanWord] using hread

theorem scan_letter {letter : Char} (h : letter ∈ literalLetters) (rest : List Char) :
    scan d letter rest = scanLetter d letter (letter :: rest) rest := by
  have hplain : letter ∉ leadingMarks := by
    revert letter
    decide
  have hletters : "bBnNeEuUxX".toList.contains letter = true := List.contains_iff_mem.2 h
  rw [scan_plain hplain, scanPlain, if_pos hletters]

theorem scanLetter_word {letter : Char} {whole rest : List Char}
    (h : introducesLiteral d letter rest = false) :
    scanLetter d letter whole rest = .ok (scanWord d [letter] rest) := by
  unfold introducesLiteral at h
  unfold scanLetter
  split <;> simp_all

theorem letterWord_outcome {letter : Char} {rest : List Char} (hl : letter ∈ literalLetters)
    (h : introducesLiteral d letter rest = false) :
    Outcome d (letter :: rest) (scanWord d [letter] rest).1 (scanWord d [letter] rest).2 := by
  show Outcome d ([letter] ++ rest) _ _
  refine word_outcome ?_ fun next hnext => ?_
  · intro l _ hl
    obtain ⟨rfl, hnil⟩ : letter = l ∧ rest.takeWhile (isWordPart d) = [] := by simpa using hl
    have hrest := List.takeWhile_append_dropWhile (p := isWordPart d) (l := rest)
    rw [hnil, List.nil_append] at hrest
    rw [hrest]
    exact h
  · have hintro : introducesLiteral d letter (rest.takeWhile (isWordPart d) ++ next) = false := by
      cases hword : rest.takeWhile (isWordPart d) with
      | nil => exact hnext.introduces letter hl (by simp [hword])
      | cons c word =>
        have hc : c ∈ rest.takeWhile (isWordPart d) := by simp [hword]
        exact introducesLiteral_of_wordPart (List.mem_takeWhile_imp hc)
    exact (scan_letter hl _).trans (scanLetter_word hintro)

/-! ## String literals -/

/-- A literal that is reached behind its printed letters and kept as it stands. -/
theorem literal_rereads {kind : LiteralKind} {escapes : Bool} {cs content left : List Char}
    (hreach : ∀ rest t left, scanLiteral kind escapes (kind.quote :: rest) = .ok (t, left) →
      Begins d (kind.letters.toList ++ kind.quote :: rest) t left)
    (hread : quotedContent kind.quote escapes cs = some (content, left)) (next : List Char)
    (hnext : Apart d (.literal kind (String.ofList content)) next) :
    Begins d ((literal kind (String.ofList content)).chars ++ next)
      (.literal kind (String.ofList content)) next := by
  have hchange := quotedContent_change hread hnext
  have hscan := hreach (content ++ kind.quote :: next) (.literal kind (String.ofList content)) next
    (by simp [scanLiteral, hchange])
  simpa using hscan

theorem scanLiteral_eq_ok {kind : LiteralKind} {escapes : Bool} {cs left : List Char} {t : Token}
    (h : scanLiteral kind escapes cs = .ok (t, left)) :
    ∃ content, quotedContent kind.quote escapes (cs.drop 1) = some (content, left) ∧
      t = .literal kind (String.ofList content) := by
  unfold scanLiteral at h
  split at h
  · rename_i content left' hread
    obtain ⟨rfl, rfl⟩ := Prod.mk.inj (Except.ok.inj h)
    exact ⟨content, hread, rfl⟩
  · simp at h

/-- A literal without letters. -/
theorem bareLiteral_outcome (kind : LiteralKind) {escapes : Bool} {rest left : List Char} {t : Token}
    (hletters : kind.letters = "") (hplain : ∀ content, Plain d (.literal kind content))
    (hreach : ∀ rest, scan d kind.quote rest = scanLiteral kind escapes (kind.quote :: rest))
    (h : scanLiteral kind escapes (kind.quote :: rest) = .ok (t, left)) :
    Outcome d (kind.quote :: rest) t left := by
  obtain ⟨content, hread, rfl⟩ := scanLiteral_eq_ok h
  have hsource := quotedContent_source hread
  rw [List.drop_one, List.tail_cons] at hsource
  refine Outcome.exact ?_ (hplain _) ?_ (literal_rereads ?_ hread)
  · simp [hletters, hsource]
  · exact quotedContent_stops hread
  · intro rest t left hscan
    rw [hletters]
    exact (hreach rest).trans hscan

/-- A literal behind one letter. -/
theorem letterLiteral_outcome (kind : LiteralKind) {escapes : Bool} {letter : Char}
    {rest left : List Char} {t : Token} (hl : letter ∈ literalLetters)
    (hletters : kind.letters.toList = [letter.toUpper])
    (hplain : ∀ content, Plain d (.literal kind content))
    (hreach : ∀ rest, scan d letter.toUpper (kind.quote :: rest) =
      scanLiteral kind escapes (kind.quote :: rest))
    (h : scanLiteral kind escapes (kind.quote :: rest) = .ok (t, left)) :
    Outcome d (letter :: kind.quote :: rest) t left := by
  obtain ⟨content, hread, rfl⟩ := scanLiteral_eq_ok h
  have hsource := quotedContent_source hread
  rw [List.drop_one, List.tail_cons] at hsource
  have hrereads : ∀ next, Apart d (.literal kind (String.ofList content)) next →
      Begins d ((literal kind (String.ofList content)).chars ++ next)
        (.literal kind (String.ofList content)) next := by
    refine literal_rereads (fun rest t left hscan => ?_) hread
    rw [hletters]
    exact (hreach rest).trans hscan
  by_cases hupper : letter.toUpper = letter
  · refine Outcome.exact ?_ (hplain _) (quotedContent_stops hread) hrereads
    simp [hletters, hupper, hsource]
  · refine ⟨?_, fun _ => hrereads⟩
    rw [hsource]
    exact Source.literal hletters hl (quotedContent_stops hread) (Or.inl ⟨by simp, hupper⟩)

/-- A literal of which the content was decoded. -/
theorem decodedLiteral_outcome {kind : LiteralKind} {letter : Char} {marks : List Char}
    {cs content left : List Char} (hl : letter ∈ literalLetters)
    (hletters : kind.letters.toList = letter.toUpper :: marks)
    (hquote : kind.quote = '\'')
    (hplain : ∀ value, Plain d (.literal kind value) ↔ Literal value.toList)
    (hreach : ∀ next, Literal content → next.head? ≠ some '\'' →
      scan d letter.toUpper (marks ++ '\'' :: (content ++ '\'' :: next)) =
        .ok (.literal kind (String.ofList content), next))
    (h : TakenAs cs content left) :
    Outcome d (letter :: (marks ++ '\'' :: cs)) (.literal kind (String.ofList content)) left := by
  obtain ⟨hleft, taken, rfl, htaken⟩ := h
  constructor
  · by_cases hexact : taken = content ∧ Literal content ∧ letter.toUpper = letter
    · obtain ⟨rfl, hlit, hupper⟩ := hexact
      have happ : Apart d (.literal kind (String.ofList taken)) left := by
        simpa [Apart, hquote] using hleft
      have hsrc := Source.exact ((hplain _).2 (by simpa using hlit)) happ
      simpa [hletters, hquote, hupper] using hsrc
    · have hprinted : taken = (String.ofList content).toList ∧ letter.toUpper ≠ letter ∨
          (String.ofList content).toList.length < taken.length := by
        rcases htaken with ⟨rfl, hlit⟩ | htaken
        · exact Or.inl ⟨by simp, fun hupper => hexact ⟨rfl, hlit, hupper⟩⟩
        · exact Or.inr (by simpa using htaken)
      have happ : left.head? ≠ some kind.quote := by simpa [hquote] using hleft
      have hsrc := Source.literal (d := d) hletters hl happ hprinted
      simpa [hquote] using hsrc
  · intro hlit next hnext
    have hlit : Literal content := by simpa using (hplain _).1 hlit
    have hscan := hreach next hlit (by simpa [Apart, hquote] using hnext)
    simpa [hletters, hquote, Begins] using hscan

/-! ## Quoted names -/

theorem opensName_cases {c : Char} (h : opensName d c = true) : c = '"' ∨ c = '\x60' ∨ c = '[' := by
  cases d with
  | postgres => exact Or.inl (by simpa [opensName] using h)
  | mysql => exact Or.inr (Or.inl (by simpa [opensName] using h))
  | tsql =>
    rcases (show c = '"' ∨ c = '[' by simpa [opensName] using h) with h | h
    · exact Or.inl h
    · exact Or.inr (Or.inr h)
  | sqlite =>
    rcases (show (c = '\x60' ∨ c = '"') ∨ c = '[' by simpa [opensName] using h) with (h | h) | h
    · exact Or.inr (Or.inl h)
    · exact Or.inl h
    · exact Or.inr (Or.inr h)

/-- A character that is no quote of a name in any dialect begins neither a name nor a string in
double quotes. -/
theorem opens_nothing {c : Char} (h : c ∉ ['"', '\x60', '[']) : opensName d c = false ∧ c ≠ '"' := by
  constructor
  · refine Bool.eq_false_iff.2 fun hopens => ?_
    rcases opensName_cases hopens with rfl | rfl | rfl <;> exact h (by decide)
  · rintro rfl
    exact h (by decide)

theorem scan_opensName {c : Char} (h : opensName d c = true) (rest : List Char) :
    scan d c rest = scanQuotedName c (c :: rest) := by
  have hmarks : c ∉ leadingMarks ∧ c ∉ literalLetters := by
    rcases opensName_cases h with rfl | rfl | rfl <;> decide
  have hletters : "bBnNeEuUxX".toList.contains c = false := by
    rw [Bool.eq_false_iff]
    exact fun hc => hmarks.2 (List.contains_iff_mem.1 hc)
  rw [scan_plain hmarks.1, scanPlain, if_neg (by rw [hletters]; exact Bool.false_ne_true), if_pos h]

theorem quotedName_outcome {c : Char} {rest left : List Char} {t : Token} (hc : opensName d c = true)
    (h : scanQuotedName c (c :: rest) = .ok (t, left)) : Outcome d (c :: rest) t left := by
  unfold scanQuotedName at h
  dsimp only at h
  split at h
  · rename_i content left' hread
    obtain ⟨rfl, rfl⟩ := Prod.mk.inj (Except.ok.inj h)
    rw [List.drop_one, List.tail_cons] at hread
    refine Outcome.exact ?_ hc (quotedContent_stops hread) fun next hnext => ?_
    · simp [quotedContent_source hread]
    · have hchange := quotedContent_change hread hnext
      have hscan : scan d c (content ++ closingQuote c :: next) =
          .ok (.word (String.ofList content) (some c), next) := by
        simp [scan_opensName hc, scanQuotedName, hchange]
      simpa [Begins] using hscan
  · simp at h

/-! ## Comments -/

theorem lineComment_outcome {mark : String} {cs rest : List Char}
    (hcs : cs = mark.toList ++ rest)
    (hreach : ∀ rest, Begins d (mark.toList ++ rest) (scanLineComment mark rest).1
      (scanLineComment mark rest).2) :
    Outcome d cs (scanLineComment mark rest).1 (scanLineComment mark rest).2 := by
  subst hcs
  have hline : ∀ c ∈ rest.takeWhile (· != '\n'), (c != '\n') = true := by
    intro c hc
    exact List.mem_takeWhile_imp (p := (· != '\n')) hc
  have hsplit := List.takeWhile_append_dropWhile (p := (· != '\n')) (l := rest)
  unfold scanLineComment
  cases hrest : rest.dropWhile (· != '\n') with
  | nil =>
    refine Outcome.exact ?_ trivial (Or.inl rfl) fun next hnext => ?_
    · rw [hrest] at hsplit
      simpa using hsplit.symm
    · -- the comment has no line break, so it is the last token
      have hnext : next = [] := by
        rcases hnext with hnext | hnext
        · exact hnext
        · have hmem := List.mem_of_getLast? hnext
          rw [String.toList_ofList] at hmem
          exact absurd rfl (bne_iff_ne.1 (hline _ hmem))
      subst hnext
      have hread := hreach (rest.takeWhile (· != '\n'))
      have htake := takeWhile_append_stops (p := (· != '\n')) hline (stops_nil _)
      have hdrop := dropWhile_append_stops (p := (· != '\n')) hline (stops_nil _)
      rw [List.append_nil] at htake hdrop
      rw [scanLineComment, hdrop, htake] at hread
      simpa using hread
  | cons c left =>
    have hc : c = '\n' := by
      have hstops := stops_dropWhile (· != '\n') rest
      rw [hrest, stops_cons] at hstops
      simpa using hstops
    subst hc
    refine Outcome.exact ?_ trivial (Or.inr (by simp)) fun next hnext => ?_
    · rw [hrest] at hsplit
      simpa using hsplit.symm
    · have hstops : Stops (· != '\n') ('\n' :: next) := stops_cons.2 rfl
      have hread := hreach (rest.takeWhile (· != '\n') ++ '\n' :: next)
      rw [scanLineComment, dropWhile_append_stops hline hstops,
        takeWhile_append_stops hline hstops] at hread
      simpa using hread

theorem blockComment_outcome {rest left : List Char} {t : Token}
    (h : scanBlockComment rest = .ok (t, left)) : Outcome d ('/' :: '*' :: rest) t left := by
  unfold scanBlockComment at h
  split at h
  · rename_i content left' hread
    obtain ⟨rfl, rfl⟩ := Prod.mk.inj (Except.ok.inj h)
    obtain ⟨hsource, hlast⟩ := blockContent_source hread
    -- the content ends in the star of the closing mark
    obtain ⟨body, rfl⟩ : ∃ body, content = body ++ ['*'] := by
      cases hempty : content with
      | nil => simp [hempty] at hlast
      | cons c cs =>
        have hne : c :: cs ≠ [] := List.cons_ne_nil c cs
        rw [hempty, List.getLast?_cons_cons, List.getLast?_eq_some_getLast hne] at hlast
        exact ⟨(c :: cs).dropLast, by rw [← Option.some.inj hlast, List.dropLast_concat_getLast hne]⟩
    rw [List.dropLast_concat]
    refine Outcome.exact ?_ trivial trivial fun next _ => ?_
    · simp [hsource]
    · have hchange := blockContent_change hread next
      have hscan : scan d '/' ('*' :: (body ++ ['*'] ++ '/' :: next)) =
          .ok (.blockComment (String.ofList body), next) := by
        simp only [scan, scanBlockComment]
        rw [hchange]
        simp
      simpa [Begins] using hscan
  · simp at h

/-! ## Dollar signs -/

/-- A tag does not begin with a dollar sign. -/
theorem tag_eq_nil {tag next rest : List Char} (htag : ∀ c ∈ tag, isTagPart c = true)
    (h : tag ++ next = '$' :: rest) : tag = [] := by
  cases tag with
  | nil => rfl
  | cons c cs =>
    have hc := htag c List.mem_cons_self
    rw [(List.cons.inj h).1] at hc
    exact Bool.noConfusion hc

theorem scanDollar_tagged {tag rest content left : List Char}
    (htag : ∀ c ∈ tag, isTagPart c = true) (hne : tag ≠ [])
    (hread : taggedContent? tag (rest.length + 1) rest = some (content, left)) :
    scanDollar (tag ++ '$' :: rest) =
      .ok (.dollarQuoted (some (String.ofList tag)) (String.ofList content), left) := by
  have hstops : Stops isTagPart ('$' :: rest) := stops_cons.2 rfl
  unfold scanDollar
  split
  · rename_i other hother
    exact absurd (tag_eq_nil htag hother) hne
  · rw [dropWhile_append_stops htag hstops, takeWhile_append_stops htag hstops]
    simp only [hread]

theorem scanDollar_parameter {tag next : List Char} (htag : ∀ c ∈ tag, isTagPart c = true)
    (hnext : Stops isTagPart next) (hhead : next.head? ≠ some '$') :
    scanDollar (tag ++ next) = .ok (.placeholder ("$" ++ String.ofList tag), next) := by
  unfold scanDollar
  split
  · rename_i other hother
    obtain rfl := tag_eq_nil htag hother
    exact absurd (congrArg List.head? hother) hhead
  · rw [dropWhile_append_stops htag hnext, takeWhile_append_stops htag hnext]
    dsimp only
    split
    · exact absurd rfl hhead
    · rfl

section Dollar

variable (hreach : ∀ rest, scan d '$' rest = scanDollar rest)
include hreach

private theorem doubledDollar_outcome {rest content left : List Char}
    (hread : dollarContent false rest = some (content, left)) :
    Outcome d ('$' :: '$' :: rest) (.dollarQuoted none (String.ofList content)) left := by
  have hsource := dollarContent_source hread
  simp only [Bool.false_eq_true, if_false] at hsource
  refine Outcome.exact (by simp [hsource]) trivial trivial fun next _ => ?_
  have hchange := dollarContent_change hread next
  simp only [Bool.false_eq_true, if_false, List.drop_zero] at hchange
  have hscan : scan d '$' ('$' :: (content ++ '$' :: '$' :: next)) =
      .ok (.dollarQuoted none (String.ofList content), next) := by
    rw [hreach]
    unfold scanDollar
    simp only [hchange]
  simpa [Begins] using hscan

private theorem taggedDollar_outcome {tag rest content left : List Char}
    (htag : ∀ c ∈ tag, isTagPart c = true) (hne : tag ≠ [])
    (hread : taggedContent? tag (rest.length + 1) rest = some (content, left)) :
    Outcome d ('$' :: (tag ++ '$' :: rest))
      (.dollarQuoted (some (String.ofList tag)) (String.ofList content)) left := by
  refine Outcome.exact (by simp [taggedContent?_source hread]) trivial trivial fun next _ => ?_
  have hfuel : content.length < (content ++ '$' :: (tag ++ '$' :: next)).length + 1 := by
    simp only [List.length_append]
    omega
  have hscan := scanDollar_tagged htag hne (taggedContent?_change hread next hfuel)
  rw [← hreach] at hscan
  simpa [Begins] using hscan

private theorem dollarParameter_outcome {tag left : List Char}
    (htag : ∀ c ∈ tag, isTagPart c = true) (hstops : Stops isTagPart left)
    (hhead : left.head? ≠ some '$') :
    Outcome d ('$' :: (tag ++ left)) (.placeholder ("$" ++ String.ofList tag)) left := by
  have happ : ∀ next, Apart d (.placeholder ("$" ++ String.ofList tag)) next ↔
      Stops isTagPart next ∧ next.head? ≠ some '$' := by
    intro next
    simp [Apart]
  refine Outcome.exact (by simp) trivial ((happ left).2 ⟨hstops, hhead⟩) fun next hnext => ?_
  obtain ⟨hnext, hhead⟩ := (happ next).1 hnext
  have hscan := scanDollar_parameter htag hnext hhead
  rw [← hreach] at hscan
  simpa [Begins] using hscan

theorem dollar_outcome {rest left : List Char} {t : Token} (h : scanDollar rest = .ok (t, left)) :
    Outcome d ('$' :: rest) t left := by
  unfold scanDollar at h
  split at h
  · -- a second dollar sign
    split at h
    · rename_i content left' hread
      obtain ⟨rfl, rfl⟩ := Prod.mk.inj (Except.ok.inj h)
      exact doubledDollar_outcome hreach hread
    · simp at h
  · -- a tag, which may be empty, and what follows it
    rename_i hopen
    dsimp only at h
    have htag : ∀ c ∈ rest.takeWhile isTagPart, isTagPart c = true :=
      fun c hc => List.mem_takeWhile_imp hc
    have hsplit := List.takeWhile_append_dropWhile (p := isTagPart) (l := rest)
    have hstops := stops_dropWhile isTagPart rest
    split at h
    · rename_i tail hdrop
      split at h
      · rename_i content left' hread
        obtain ⟨rfl, rfl⟩ := Prod.mk.inj (Except.ok.inj h)
        rw [hdrop] at hsplit
        have hne : rest.takeWhile isTagPart ≠ [] := by
          intro hnil
          rw [hnil, List.nil_append] at hsplit
          exact hopen tail hsplit.symm
        have houtcome := taggedDollar_outcome hreach htag hne hread
        rwa [hsplit] at houtcome
      · simp at h
    · rename_i tail hnot
      obtain ⟨rfl, rfl⟩ := Prod.mk.inj (Except.ok.inj h)
      have hhead : (rest.dropWhile isTagPart).head? ≠ some '$' := by
        intro hhead
        obtain ⟨tail, htail⟩ := List.head?_eq_some_iff.1 hhead
        exact hnot tail htail
      have houtcome := dollarParameter_outcome hreach htag hstops hhead
      rwa [hsplit] at houtcome

end Dollar

end Token

end ReportSql
