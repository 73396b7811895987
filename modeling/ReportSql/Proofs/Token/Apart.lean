import ReportSql.Proofs.Token.Operators

/-!
# Tokens side by side

A printed token is read back as itself when the text after it does not run into
it. What that takes is stated for each kind of token, and `Source` says how the
characters that a token was read from differ from those that it prints.

## Main definitions

* `Token.Begins` - the token at the head of a text and the text after it
* `Token.Apart` - a text that does not run into a token before it
* `Token.Source` - the characters that a token was read from
* `Token.Outcome` - a read token with its source, which prints itself
-/

namespace ReportSql

namespace Token

/-! ## Printed characters -/

/-- The characters that a token prints. -/
def chars (t : Token) : List Char :=
  t.text.toList

/-- The characters that a list of tokens prints. -/
def charsOf (tokens : List Token) : List Char :=
  tokens.flatMap chars

theorem toList_textOf (tokens : List Token) : (textOf tokens).toList = charsOf tokens := by
  simp only [textOf, charsOf, String.toList_join, List.flatMap_map]
  rfl

@[simp] theorem charsOf_nil : charsOf [] = [] := rfl

@[simp] theorem charsOf_cons (t : Token) (tokens : List Token) :
    charsOf (t :: tokens) = t.chars ++ charsOf tokens := by
  simp [charsOf]

@[simp] theorem charsOf_append (first second : List Token) :
    charsOf (first ++ second) = charsOf first ++ charsOf second := by
  simp [charsOf]

@[simp] theorem chars_word (value : String) : (word value none).chars = value.toList :=
  congrArg String.toList (text_word value)

@[simp] theorem chars_quotedWord (value : String) (quote : Char) :
    (word value (some quote)).chars = quote :: (value.toList ++ [closingQuote quote]) := by
  simp [chars, text]

@[simp] theorem chars_number (digits : String) (long : Bool) :
    (number digits long).chars = digits.toList ++ if long then ['L'] else [] := by
  cases long <;> simp [chars, text]

@[simp] theorem chars_literal (kind : LiteralKind) (content : String) :
    (literal kind content).chars =
      kind.letters.toList ++ kind.quote :: (content.toList ++ [kind.quote]) := by
  simp [chars, text]

@[simp] theorem chars_dollarQuoted (content : String) :
    (dollarQuoted none content).chars = '$' :: '$' :: (content.toList ++ ['$', '$']) := by
  simp [chars, text]

@[simp] theorem chars_taggedQuoted (tag content : String) :
    (dollarQuoted (some tag) content).chars =
      '$' :: (tag.toList ++ '$' :: (content.toList ++ '$' :: (tag.toList ++ ['$']))) := by
  simp [chars, text]

@[simp] theorem chars_placeholder (text : String) : (placeholder text).chars = text.toList := rfl

@[simp] theorem chars_operator (text : String) : (operator text).chars = text.toList := rfl

@[simp] theorem chars_punctuation (mark : Punctuation) :
    (punctuation mark).chars = [mark.char] := by
  simp [chars, text]

@[simp] theorem chars_blank (kind : Blank) : (blank kind).chars = [kind.char] := by
  simp [chars, text]

@[simp] theorem chars_lineComment (mark content : String) :
    (lineComment mark content).chars = mark.toList ++ content.toList := by
  simp [chars, text]

@[simp] theorem chars_blockComment (content : String) :
    (blockComment content).chars = '/' :: '*' :: (content.toList ++ ['*', '/']) := by
  simp [chars, text]

@[simp] theorem chars_other (c : Char) : (other c).chars = [c] := by
  simp [chars, text]

/-! ## Texts that do not run into a token -/

/-- The letters that may introduce a literal. -/
def literalLetters : List Char := "bBnNeEuUxX".toList

/-- Whether one of these letters introduces a literal before a text. -/
def introducesLiteral (d : Dialect) (letter : Char) (next : List Char) : Bool :=
  match letter.toLower, next with
  | 'b', '\'' :: _ | 'b', '"' :: _ => d = .postgres || d = .mysql
  | 'n', '\'' :: _ | 'x', '\'' :: _ | 'e', '\'' :: _ => true
  | 'u', '&' :: '\'' :: _ => d = .postgres
  | _, _ => false

/-- A text that no longer belongs to an unquoted word before it. -/
structure WordApart (d : Dialect) (value : List Char) (next : List Char) : Prop where
  stops : Stops (isWordPart d) next
  introduces : ∀ letter ∈ literalLetters, value = [letter] → introducesLiteral d letter next = false

/-- A text that no longer belongs to a number before it. A number without an exponent could go on
with a fraction, an exponent or, in MySQL, with a word. -/
structure NumberApart (d : Dialect) (digits : List Char) (next : List Char) : Prop where
  digit : Stops Char.isDigit next
  suffix : next.head? ≠ some 'L'
  fraction : 'e' ∉ digits → 'E' ∉ digits → '.' ∉ digits → next.head? ≠ some '.'
  exponent : 'e' ∉ digits → 'E' ∉ digits → readExponent? next = none
  hexadecimal : digits = ['0'] → next.head? ≠ some 'x'
  word : 'e' ∉ digits → 'E' ∉ digits → d = .mysql →
    next.head? = some 'e' ∨ next.head? = some 'E' ∨ Stops (isWordPart d) next

/-- The comment marks, and the operators that are not in the table. -/
def furtherMarks : List String :=
  ["--", "/*", "#-", "#>", "#>>", "@>", "@?", "@@", "?|", "?&"]

/-- The characters that start the operators which custom operators may continue. -/
def continuedMarks : List Char :=
  ['-', '|', '<', '>', '&', '~', '#', '%']

/-- A text that no longer belongs to an operator before it. -/
structure OperatorApart (d : Dialect) (text : String) (next : List Char) : Prop where
  unextended : ∀ c ∈ next.head?, text.push c ∉ operators.map (·.1) ++ furtherMarks
  stops : (∃ c ∈ text.toList.head?, c ∈ continuedMarks) → Stops (isOperatorPart d) next
  last : text = "?" → next = []
  blank : (text = "@" ∨ text = "@@") ∧ isWordStart d '@' = true ∨ text = "#" ∧ d = .tsql →
    ∀ c ∈ next.head?, c = ' '

/-- A text that does not run into a token before it. -/
def Apart (d : Dialect) (t : Token) (next : List Char) : Prop :=
  match t with
  | .word value none => WordApart d value.toList next
  | .word _ (some quote) => next.head? ≠ some (closingQuote quote)
  | .number digits long => long = false → NumberApart d digits.toList next
  | .literal kind _ => next.head? ≠ some kind.quote
  | .placeholder text =>
    if text.toList.head? = some '?' then Stops Text.isNumeric next
    else Stops isTagPart next ∧ next.head? ≠ some '$'
  | .punctuation .period => Stops Char.isDigit next
  | .punctuation .colon => ∀ c ∈ next.head?, c ≠ ':' ∧ c ≠ '='
  | .operator text => OperatorApart d text next
  | .lineComment _ content => next = [] ∨ content.toList.getLast? = some '\n'
  | _ => True

/-- A token that can be written as it is printed: a content that is kept decoded needs no escape, and
the quotes around a name are those of the dialect. -/
def Plain (d : Dialect) : Token → Prop
  | .literal .escaped content | .literal .unicode content => Literal content.toList
  | .word _ (some quote) => opensName d quote = true
  | _ => True

/-! ## Reading a token back -/

/-- The token at the head of a text and the text after it. -/
def Begins (d : Dialect) (cs : List Char) (t : Token) (left : List Char) : Prop :=
  match cs with
  | [] => False
  | c :: rest => scan d c rest = .ok (t, left)

/-- The characters that a token was read from, with those after it: the characters that it prints,
or characters that are printed in another way. -/
inductive Source (d : Dialect) : List Char → Token → List Char → Prop
  | exact {t : Token} {left : List Char} (plain : Plain d t) (apart : Apart d t left) :
      Source d (t.chars ++ left) t left
  /-- A blank of another kind, or two characters that break a line. -/
  | blank {kind : Blank} {c : Char} {skipped left : List Char} (other : c ≠ kind.char)
      (wide : c ≠ ' ') (white : Text.isBlank c = true) :
      Source d (c :: skipped ++ left) (.blank kind) left
  /-- A literal behind a small letter, or with a content that was decoded. -/
  | literal {kind : LiteralKind} {letter : Char} {marks content : List Char} {value : String}
      {left : List Char} (letters : kind.letters.toList = letter.toUpper :: marks)
      (known : letter ∈ literalLetters) (apart : left.head? ≠ some kind.quote)
      (printed : content = value.toList ∧ letter.toUpper ≠ letter ∨
        value.toList.length < content.length) :
      Source d (letter :: (marks ++ kind.quote :: (content ++ kind.quote :: left)))
        (.literal kind value) left
  /-- Digits behind a zero and an x. -/
  | hexadecimal {digits left : List Char} :
      Source d ('0' :: 'x' :: (digits ++ left)) (.literal .hexadecimal (String.ofList digits)) left
  | notEqual {left : List Char} : Source d ('!' :: '=' :: left) (.operator "<>") left
  /-- A question mark that takes the character after it away. -/
  | dropping {c : Char} {left : List Char} (dialect : d = .postgres) :
      Source d ('?' :: c :: left) (.operator "?") left

/-- A token that was read: its source is known, and it prints what is read as itself before every
text that does not run into it. -/
structure Outcome (d : Dialect) (cs : List Char) (t : Token) (left : List Char) : Prop where
  source : Source d cs t left
  rereads : Plain d t → ∀ next, Apart d t next → Begins d (t.chars ++ next) t next

/-- The outcome of a reader that took exactly what the token prints. -/
theorem Outcome.exact {d : Dialect} {cs : List Char} {t : Token} {left : List Char}
    (hcs : cs = t.chars ++ left) (plain : Plain d t) (apart : Apart d t left)
    (rereads : ∀ next, Apart d t next → Begins d (t.chars ++ next) t next) :
    Outcome d cs t left := by
  subst hcs
  exact ⟨.exact plain apart, fun _ => rereads⟩

/-! ## The first characters -/

/-- The characters that are looked at before all others. -/
def leadingMarks : List Char :=
  [' ', '\t', '\n', '\r', '\'', '-', '/', '%', '#', '@', '?']

theorem scan_plain {d : Dialect} {c : Char} {rest : List Char} (h : c ∉ leadingMarks) :
    scan d c rest = scanPlain d c rest := by
  unfold scan
  split <;> simp_all [leadingMarks]

theorem scan_minus {d : Dialect} {rest : List Char} (h : rest.head? ≠ some '-') :
    scan d '-' rest = scanPlain d '-' rest := by
  unfold scan
  split <;> simp_all

theorem scan_slash {d : Dialect} {rest : List Char} (h : rest.head? ≠ some '*') :
    scan d '/' rest = scanPlain d '/' rest := by
  unfold scan
  split <;> simp_all

end Token

end ReportSql
