import ReportSql.Proofs.Dialect.Identifiers

/-!
# String literals and backslashes

Every dialect prints a string between single quotes, with the quotes inside doubled. That is read
back where a literal has no other escapes. In MySQL a backslash protects the character behind it, and
the tokenizer lets it do so in the Unicode literals of T-SQL as well; there a backslash before a quote
or at the end of the string makes the literal end in another place than where it was printed to end.

## Main definitions

* `Dialect.escapesOnly` - the characters that the backslashes of a text stand before
* `Dialect.literalValue` - the string that the content of a literal stands for
* `Dialect.Contained`, `Dialect.ReadBack` - strings of which the literal ends where it should, and
  strings that their literal stands for

## Main results

* `Dialect.closes_doubled_iff` - where a quoted text ends when backslashes protect
* `Dialect.tokenize_quoteString` - the strings that quoting is right for
-/

namespace ReportSql

open scoped Token
open Token (Begins quotedContent scanLiteral escapesStrings)

namespace Dialect

/-! ## Backslashes -/

/-- Every backslash stands before a character of a class. A backslash is taken together with the
character behind it, from left to right, so that of two backslashes only the first counts. -/
def escapesOnly (p : Char → Bool) : List Char → Bool
  | [] => true
  | c :: rest =>
    if c = '\\' then
      match rest with
      | [] => false
      | next :: after => p next && escapesOnly p after
    else escapesOnly p rest

section EscapesOnly

variable {p q : Char → Bool}

@[simp] theorem escapesOnly_pair (c : Char) (cs : List Char) :
    escapesOnly p ('\\' :: c :: cs) = (p c && escapesOnly p cs) := rfl

theorem escapesOnly_of_ne {c : Char} (hc : c ≠ '\\') (cs : List Char) :
    escapesOnly p (c :: cs) = escapesOnly p cs := by
  rw [escapesOnly.eq_def]
  exact if_neg hc

theorem escapesOnly_mono (hpq : ∀ c, p c = true → q c = true) {cs : List Char}
    (h : escapesOnly p cs = true) : escapesOnly q cs = true := by
  fun_induction escapesOnly p cs with
  | case1 => rfl
  | case2 => exact absurd h Bool.false_ne_true
  | case3 next after ih =>
    rw [Bool.and_eq_true] at h
    rw [escapesOnly_pair, Bool.and_eq_true]
    exact ⟨hpq next h.1, ih h.2⟩
  | case4 c rest hc ih =>
    rw [escapesOnly_of_ne hc]
    exact ih h

theorem escapesOnly_of_notMem {cs : List Char} (h : '\\' ∉ cs) : escapesOnly p cs = true := by
  induction cs with
  | nil => rfl
  | cons c cs ih =>
    rw [List.mem_cons, not_or] at h
    rw [escapesOnly_of_ne (Ne.symm h.1)]
    exact ih h.2

end EscapesOnly

/-! ## The end of a literal -/

/-- A text that is the content of a literal and its closing quote, where backslashes protect. -/
def Closes (cs : List Char) : Prop :=
  ∃ content, quotedContent '\'' true cs = some (content, [])

theorem not_closes_nil : ¬ Closes [] := by
  rintro ⟨content, h⟩
  simp [quotedContent] at h

theorem closes_pair {cs : List Char} : Closes ('\'' :: '\'' :: cs) ↔ Closes cs := by
  unfold Closes
  rw [Token.quotedContent_pair]
  simp

theorem closes_escape {c : Char} {cs : List Char} : Closes ('\\' :: c :: cs) ↔ Closes cs := by
  simp [Closes, quotedContent]

theorem closes_of_ne {c : Char} {cs : List Char} (hquote : c ≠ '\'') (hback : c ≠ '\\') :
    Closes (c :: cs) ↔ Closes cs := by
  unfold Closes
  rw [Token.quotedContent_of_ne hquote fun _ => hback]
  simp

/-- Behind one quote too many every doubled quote is torn apart, so that the literal ends before the
first character that is no quote, or not at all. -/
theorem not_closes_quote (cs : List Char) :
    ¬ Closes ('\'' :: (doubled '\'' (String.ofList cs) ++ ['\''])) := by
  induction cs with
  | nil => exact fun h => not_closes_nil (closes_pair.1 h)
  | cons c cs ih =>
    by_cases hc : c = '\''
    · rw [hc, doubled_self, List.cons_append, closes_pair]
      exact ih
    · rw [doubled_of_ne '\'' hc]
      rintro ⟨content, h⟩
      simp [quotedContent, hc] at h

theorem closes_doubled_iff (cs : List Char) :
    Closes (doubled '\'' (String.ofList cs) ++ ['\'']) ↔ escapesOnly (· != '\'') cs = true := by
  fun_induction escapesOnly (· != '\'') cs with
  | case1 => exact ⟨fun _ => rfl, fun _ => ⟨[], rfl⟩⟩
  | case2 =>
    rw [doubled_of_ne '\'' (by decide), doubled_empty, List.singleton_append, closes_escape]
    exact iff_of_false not_closes_nil Bool.false_ne_true
  | case3 next after ih =>
    rw [doubled_of_ne '\'' (by decide), Bool.and_eq_true, bne_iff_ne]
    by_cases hnext : next = '\''
    · -- the backslash takes the first of the two quotes, and the second stands alone
      rw [hnext, doubled_self, List.cons_append, List.cons_append, closes_escape]
      exact iff_of_false (not_closes_quote after) fun h => h.1 rfl
    · rw [doubled_of_ne '\'' hnext, List.cons_append, List.cons_append, closes_escape, ih]
      exact (and_iff_right hnext).symm
  | case4 c rest hback ih =>
    by_cases hc : c = '\''
    · rw [hc, doubled_self, List.cons_append, List.cons_append, closes_pair, ih]
    · rw [doubled_of_ne '\'' hc, List.cons_append, closes_of_ne hc hback, ih]

/-! ## Printed literals -/

/-- A string of ASCII characters. -/
def isAscii (s : String) : Bool :=
  s.toList.all (·.toNat < 0x80)

/-- The kind of the literal that a string is printed as. -/
def literalKind (d : Dialect) (s : String) : LiteralKind :=
  if d = tsql && !isAscii s then .national else .single

/-- Whether the tokenizer lets backslashes protect in this literal. -/
def readsEscapes (d : Dialect) (s : String) : Bool :=
  d = mysql || d = tsql && !isAscii s

/-- The literal of a string ends at its last quote. -/
def Contained (d : Dialect) (s : String) : Prop :=
  readsEscapes d s = true → escapesOnly (· != '\'') s.toList = true

/-- The text between the quotes of a printed literal. -/
def printedContent (s : String) : String :=
  String.ofList (doubled '\'' s)

variable {d : Dialect} {s : String}

/-- A printed literal is read by the reader of its kind. -/
theorem begins_quoteString {t : Token} {left : List Char} :
    Begins d (d.quoteString s).toList t left ↔
      scanLiteral (literalKind d s) (readsEscapes d s) ('\'' :: (doubled '\'' s ++ ['\''])) =
        .ok (t, left) := by
  unfold quoteString literalKind readsEscapes isAscii
  by_cases hunicode : (d = tsql && !s.toList.all (·.toNat < 0x80)) = true
  · rw [if_pos hunicode, if_pos hunicode, hunicode, Bool.or_true, String.toList_ofList]
    show Token.scan d 'N' _ = _ ↔ _
    have hnational : Token.QuotedBy d 'N' .national true := .national (by decide)
    rw [List.cons_append, Token.scan_letter (by decide)]
    exact iff_of_eq (congrArg (· = _) (hnational.scanLetter _))
  · rw [if_neg hunicode, if_neg hunicode, Bool.eq_false_iff.2 hunicode, Bool.or_false,
      String.toList_ofList]
    have hescapes : decide (d = mysql) = escapesStrings d := by
      cases d <;> rfl
    rw [hescapes]
    exact Iff.rfl

theorem quotedContent_printed {content : List Char} :
    quotedContent '\'' (readsEscapes d s) (doubled '\'' s ++ ['\'']) = some (content, []) ↔
      Contained d s ∧ content = doubled '\'' s := by
  have hcloses := closes_doubled_iff s.toList
  rw [String.ofList_toList] at hcloses
  -- the content is known from the text, so that only its existence is in question
  have hsource : ∀ content', quotedContent '\'' (readsEscapes d s) (doubled '\'' s ++ ['\'']) =
      some (content', []) → content' = doubled '\'' s := by
    intro content' h
    exact (List.append_cancel_right (Token.quotedContent_source h)).symm
  unfold Contained
  cases hreads : readsEscapes d s with
  | false =>
    rw [hreads] at hsource
    constructor
    · intro h
      exact ⟨fun hfalse => absurd hfalse Bool.false_ne_true, hsource content h⟩
    · rintro ⟨-, rfl⟩
      exact quotedContent_doubled '\'' s (by decide)
  | true =>
    rw [hreads] at hsource
    constructor
    · intro h
      exact ⟨fun _ => hcloses.1 ⟨content, h⟩, hsource content h⟩
    · rintro ⟨hcontained, rfl⟩
      obtain ⟨content, h⟩ := hcloses.2 (hcontained rfl)
      rwa [hsource content h] at h

/-- A printed literal is one token exactly when it ends at its last quote, and then it is a literal
with the printed content. -/
theorem tokenize_quoteString_eq_single {t : Token} :
    Token.tokenize d (d.quoteString s) = .ok [t] ↔
      Contained d s ∧ t = .literal (literalKind d s) (printedContent s) := by
  have hquote : (literalKind d s).quote = '\'' := by
    unfold literalKind
    split <;> rfl
  rw [Token.tokenize_eq_single, begins_quoteString]
  constructor
  · intro h
    obtain ⟨content, hcontent, rfl⟩ := Token.scanLiteral_eq_ok h
    rw [hquote] at hcontent
    obtain ⟨hcontained, rfl⟩ := quotedContent_printed.1 hcontent
    exact ⟨hcontained, rfl⟩
  · rintro ⟨hcontained, rfl⟩
    have hcontent := quotedContent_printed.2 ⟨hcontained, rfl⟩
    rw [scanLiteral, hquote, List.drop_one, List.tail_cons, hcontent]
    rfl

/-! ## The value of a literal -/

/-- The characters before which MySQL keeps a backslash. -/
def keepsBackslash (c : Char) : Bool :=
  c == '%' || c == '_'

/-- What a backslash and the character behind it stand for in MySQL. -/
def escapeMeaning (c : Char) : List Char :=
  match c with
  | '0' => ['\x00']
  | 'b' => ['\x08']
  | 'n' => ['\n']
  | 'r' => ['\r']
  | 't' => ['\t']
  | 'Z' => ['\x1a']
  | _ => if keepsBackslash c then ['\\', c] else [c]

/-- A content of which the escapes of MySQL and the doubled quotes are undone. -/
def unescaped : List Char → List Char
  | c :: next :: rest =>
    if c = '\\' then escapeMeaning next ++ unescaped rest
    else if c = '\'' ∧ next = '\'' then c :: unescaped rest
    else c :: unescaped (next :: rest)
  | short => short

/-- The string that the content of a literal stands for. -/
def literalValue (d : Dialect) (content : String) : String :=
  String.ofList (if d = mysql then unescaped content.toList else undoubled '\'' content.toList)

/-- The strings that their literal stands for. -/
def ReadBack : Dialect → String → Prop
  | postgres, _ | sqlite, _ => True
  | tsql, s => isAscii s = true ∨ escapesOnly (· != '\'') s.toList = true
  | mysql, s => escapesOnly keepsBackslash s.toList = true

theorem escapeMeaning_of_keeps {c : Char} (h : keepsBackslash c = true) :
    escapeMeaning c = ['\\', c] := by
  unfold escapeMeaning
  split <;> first | exact absurd h (by decide) | exact if_pos h

theorem length_escapeMeaning {c : Char} (h : keepsBackslash c = false) :
    (escapeMeaning c).length = 1 := by
  unfold escapeMeaning
  split <;> first | rfl | simp [h]

theorem unescaped_of_ne {c : Char} (hquote : c ≠ '\'') (hback : c ≠ '\\') (cs : List Char) :
    unescaped (c :: cs) = c :: unescaped cs := by
  cases cs with
  | nil => rfl
  | cons next rest =>
    rw [unescaped, if_neg hback]
    exact if_neg fun hpair => hquote hpair.1

/-- What an escape stands for is shorter than the escape, unless it is kept as it is; so nothing makes
up for an escape that is undone. -/
theorem unescaped_doubled {cs : List Char} (h : escapesOnly (· != '\'') cs = true) :
    (unescaped (doubled '\'' (String.ofList cs))).length ≤ cs.length ∧
      (unescaped (doubled '\'' (String.ofList cs)) = cs ↔ escapesOnly keepsBackslash cs = true) := by
  fun_induction escapesOnly (· != '\'') cs with
  | case1 => exact ⟨Nat.le_refl 0, iff_of_true rfl rfl⟩
  | case2 => exact absurd h Bool.false_ne_true
  | case3 next after ih =>
    rw [Bool.and_eq_true, bne_iff_ne] at h
    obtain ⟨hlength, heq⟩ := ih h.2
    rw [doubled_of_ne '\'' (by decide), doubled_of_ne '\'' h.1, unescaped, if_pos rfl,
      escapesOnly_pair, List.length_append]
    cases hkeeps : keepsBackslash next with
    | true =>
      rw [escapeMeaning_of_keeps hkeeps]
      refine ⟨by simp only [List.length_cons, List.length_nil]; omega, ?_⟩
      simpa using heq
    | false =>
      -- one character stands for two, so the texts already differ in length
      have hmeaning := length_escapeMeaning hkeeps
      rw [Bool.false_and]
      refine ⟨by simp only [List.length_cons]; omega, iff_of_false (fun hsame => ?_) Bool.false_ne_true⟩
      have hshort := congrArg List.length hsame
      simp only [List.length_append, List.length_cons] at hshort
      omega
  | case4 c rest hback ih =>
    obtain ⟨hlength, heq⟩ := ih h
    have hstep : unescaped (doubled '\'' (String.ofList (c :: rest))) =
        c :: unescaped (doubled '\'' (String.ofList rest)) := by
      by_cases hc : c = '\''
      · rw [hc, doubled_self, unescaped, if_neg (by decide), if_pos ⟨rfl, rfl⟩]
      · rw [doubled_of_ne '\'' hc, unescaped_of_ne hc hback]
    rw [hstep, escapesOnly_of_ne hback]
    refine ⟨Nat.succ_le_succ hlength, ?_⟩
    rw [List.cons_inj_right]
    exact heq

theorem literalValue_of_ne (hd : d ≠ mysql) : d.literalValue (printedContent s) = s := by
  rw [literalValue, if_neg hd, printedContent, String.toList_ofList, undoubled_doubled,
    String.ofList_toList]

theorem literalValue_mysql (h : escapesOnly (· != '\'') s.toList = true) :
    mysql.literalValue (printedContent s) = s ↔ escapesOnly keepsBackslash s.toList = true := by
  have hvalue := (unescaped_doubled h).2
  rw [String.ofList_toList] at hvalue
  rw [literalValue, if_pos rfl, printedContent, String.toList_ofList, String.ext_iff,
    String.toList_ofList]
  exact hvalue

theorem readBack_iff : ReadBack d s ↔ Contained d s ∧ d.literalValue (printedContent s) = s := by
  cases d with
  | postgres => exact iff_of_true trivial ⟨fun h => absurd h Bool.false_ne_true, literalValue_of_ne (by decide)⟩
  | sqlite => exact iff_of_true trivial ⟨fun h => absurd h Bool.false_ne_true, literalValue_of_ne (by decide)⟩
  | tsql =>
    rw [and_iff_left (literalValue_of_ne (by decide))]
    show isAscii s = true ∨ _ ↔ ((!isAscii s) = true → _)
    rw [Bool.not_eq_true', ← Bool.not_eq_true, or_iff_not_imp_left]
  | mysql =>
    have hcontained : Contained mysql s ↔ escapesOnly (· != '\'') s.toList = true :=
      forall_prop_of_true rfl
    rw [hcontained]
    constructor
    · intro h
      have hends : escapesOnly (· != '\'') s.toList = true := by
        refine escapesOnly_mono (fun c hc => ?_) h
        rw [bne_iff_ne]
        rintro rfl
        exact absurd hc (by decide)
      exact ⟨hends, (literalValue_mysql hends).2 h⟩
    · rintro ⟨hends, hvalue⟩
      exact (literalValue_mysql hends).1 hvalue

/-- A string without backslashes is read back in every dialect. -/
theorem readBack_of_notMem (h : '\\' ∉ s.toList) : ReadBack d s := by
  cases d with
  | postgres => trivial
  | sqlite => trivial
  | tsql => exact Or.inr (escapesOnly_of_notMem h)
  | mysql => exact escapesOnly_of_notMem h

/-- The strings that quoting is right for. A printed string is a single token exactly when the
backslashes that the tokenizer heeds stand neither before a quote nor at the end, the token is then
the literal with the printed content, and it stands for the string exactly when no escape is undone. -/
theorem tokenize_quoteString (d : Dialect) (s : String) :
    (∀ t, Token.tokenize d (d.quoteString s) = .ok [t] ↔
      Contained d s ∧ t = .literal (literalKind d s) (printedContent s)) ∧
    ((∃ kind content, Token.tokenize d (d.quoteString s) = .ok [.literal kind content] ∧
      d.literalValue content = s) ↔ ReadBack d s) := by
  refine ⟨fun t => tokenize_quoteString_eq_single, ?_⟩
  rw [readBack_iff]
  constructor
  · rintro ⟨kind, content, htokens, hvalue⟩
    obtain ⟨hcontained, hliteral⟩ := tokenize_quoteString_eq_single.1 htokens
    obtain ⟨-, rfl⟩ := Token.literal.inj hliteral
    exact ⟨hcontained, hvalue⟩
  · rintro ⟨hcontained, hvalue⟩
    exact ⟨_, _, tokenize_quoteString_eq_single.2 ⟨hcontained, rfl⟩, hvalue⟩

/-- A backslash at the end of a string takes the closing quote away in MySQL, and one before a quote
lets the rest of the string out; the first happens in the Unicode literals of T-SQL as well. -/
theorem tokenize_quoteString_backslash :
    Token.tokenize mysql (quoteString mysql "\\") = .error ⟨.unterminatedString, 1, 1⟩ ∧
      Token.tokenize mysql (quoteString mysql "\\' OR 1 -- ") = .ok [.literal .single "\\'",
        .blank .space, .word "OR" none, .blank .space, .number "1" false, .blank .space,
        .lineComment "--" " '"] ∧
      Token.tokenize tsql (quoteString tsql "é\\") = .error ⟨.unterminatedString, 1, 2⟩ := by
  decide +kernel

end Dialect

end ReportSql
