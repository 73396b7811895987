import ReportSql.Dialect
import ReportSql.Text.Blank
import ReportSql.Text.Digit
import ReportSql.Text.Letter
import ReportSql.Token.Basic

/-!
# Tokenizing author statements

The lexical rules of the four dialects. A statement is read from left to right;
the first rule that fits the next character decides, and every rule consumes at
least one character.

## Main definitions

* `LexError` - what is wrong with a text, and where
* `Token.scan` - the token at the head of a text and the text after it
* `Token.tokenize` - the tokens of a whole text

## Design notes

Readers work on the list of characters that is left. A fault carries the
characters left at the place it is reported for, from which `tokenize` computes
line and column.
-/

namespace ReportSql

/-- The ways in which a text fails to be a list of tokens. -/
inductive LexProblem where
  | unterminatedString
  | unterminatedEscapedString
  | unterminatedUnicodeString
  | missingHexDigit
  | badHexDigit (char : Char)
  | badCodePoint (value : Nat)
  | missingDelimiter (quote : Char)
  | unterminatedComment
  | unterminatedDollarString
  | unterminatedTaggedString
deriving DecidableEq, Repr

/-- The wording of a problem. -/
def LexProblem.message : LexProblem → String
  | unterminatedString => "Unterminated string literal"
  | unterminatedEscapedString => "Unterminated encoded string literal"
  | unterminatedUnicodeString => "Unterminated unicode encoded string literal"
  | missingHexDigit => "Unexpected EOF while parsing hex digit in escaped unicode string."
  | badHexDigit char =>
    "Invalid hex digit in escaped unicode string: " ++ String.singleton char
  | badCodePoint value =>
    "Invalid unicode character: " ++ String.ofList (Text.digitsOfNat 16 value)
  | missingDelimiter quote =>
    "Expected close delimiter '" ++ String.singleton quote ++ "' before EOF."
  | unterminatedComment => "Unexpected EOF while in a multi-line comment"
  | unterminatedDollarString => "Unterminated dollar-quoted string"
  | unterminatedTaggedString => "Unterminated dollar-quoted, expected $"

/-- A problem and its place; lines and columns count from one, columns in characters. -/
structure LexError where
  problem : LexProblem
  line : Nat
  column : Nat
deriving DecidableEq, Repr

/-- The wording of an error. -/
def LexError.message (e : LexError) : String :=
  e.problem.message ++ " at Line: " ++ toString e.line ++ ", Column: " ++ toString e.column

/-- A problem with the characters that are left where it is reported. -/
structure LexFault where
  problem : LexProblem
  left : List Char

namespace Token

/-- What a reader gives: a value and the characters after it, or a fault. -/
abbrev Scanned (α : Type) := Except LexFault (α × List Char)

/-! ## Characters of a dialect -/

/-- The characters that may start an unquoted word. -/
def isWordStart : Dialect → Char → Bool
  | .postgres, c => Text.isAlphabetic c || c == '_'
  | .mysql, c =>
    Text.isAlphabetic c || c == '_' || c == '$' || c == '@' ||
      (0x80 ≤ c.toNat && c.toNat ≤ 0xFFFF)
  | .tsql, c => Text.isAlphabetic c || c == '_' || c == '#' || c == '@'
  | .sqlite, c => c.isAlpha || c == '_' || (0x7F ≤ c.toNat && c.toNat ≤ 0xFFFF)

/-- The characters that may follow in an unquoted word. -/
def isWordPart (d : Dialect) (c : Char) : Bool :=
  isWordStart d c || c.isDigit ||
    match d with
    | .postgres | .tsql => c == '$'
    | _ => false

/-- The characters that open a quoted name. -/
def opensName : Dialect → Char → Bool
  | .postgres, c => c == '"'
  | .mysql, c => c == '\x60'
  | .tsql, c => c == '"' || c == '['
  | .sqlite, c => c == '\x60' || c == '"' || c == '['

/-- Whether a backslash protects the next character of an ordinary string literal. -/
def escapesStrings : Dialect → Bool
  | .mysql => true
  | _ => false

/-- The characters that make up custom operators, in the dialect that has them. -/
def isOperatorPart : Dialect → Char → Bool
  | .postgres, c => "+-*/<>=~!@#%^&|\x60?".toList.contains c
  | _, _ => false

/-! ## Strings and names -/

/-- The content of a literal after its opening quote. A doubled quote stays doubled and does not
close; with `escapes`, a backslash keeps the next character from closing. -/
def quotedContent (quote : Char) (escapes : Bool) : List Char → Option (List Char × List Char)
  | [] => none
  | c :: rest =>
    if c = quote then
      match rest with
      | [] => some ([], [])
      | next :: after =>
        if next = quote then
          (quotedContent quote escapes after).map fun (s, left) => (c :: next :: s, left)
        else
          some ([], rest)
    else if escapes && c = '\\' then
      match rest with
      | [] => none
      | next :: after =>
        (quotedContent quote escapes after).map fun (s, left) => (c :: next :: s, left)
    else
      (quotedContent quote escapes rest).map fun (s, left) => (c :: s, left)

/-- A literal from its opening quote on. -/
def scanLiteral (kind : LiteralKind) (escapes : Bool) (cs : List Char) : Scanned Token :=
  match quotedContent kind.quote escapes (cs.drop 1) with
  | some (content, left) => .ok (.literal kind (String.ofList content), left)
  | none => .error ⟨.unterminatedString, cs⟩

/-- A quoted name from its opening quote on. -/
def scanQuotedName (quote : Char) (cs : List Char) : Scanned Token :=
  let closing := closingQuote quote
  match quotedContent closing false (cs.drop 1) with
  | some (content, left) => .ok (.word (String.ofList content) (some quote), left)
  | none => .error ⟨.missingDelimiter closing, cs⟩

/-! ## Escaped strings -/

/-- The octal digits. -/
def isOctalDigit (c : Char) : Bool :=
  '0' ≤ c && c ≤ '7'

/-- The character with the given code, when there is one. -/
def charOf? (code : Nat) : Option Char :=
  if code.isValidChar then some (Char.ofNat code) else none

/-- The ASCII character in the low eight bits of a number. -/
def lowByteChar? (n : Nat) : Option Char :=
  let byte := n % 256
  if byte ≤ 127 then some (Char.ofNat byte) else none

/-- A code point in exactly `count` characters, of which the first may be a plus sign. -/
def readCodePoint? (count : Nat) (cs : List Char) : Option (Char × List Char) :=
  let digits := cs.take count
  if digits.length < count then
    none
  else
    let digits := match digits with
      | '+' :: more => more
      | _ => digits
    if digits.isEmpty || !digits.all Text.isHexDigit then none
    else (charOf? (Text.valueOf 16 digits)).map fun c => (c, cs.drop count)

/-- The character written by an escape, after its backslash. -/
def readEscape? : List Char → Option (Char × List Char)
  | [] => none
  | c :: rest =>
    match c with
    | 'b' => some ('\x08', rest)
    | 'f' => some ('\x0c', rest)
    | 'n' => some ('\n', rest)
    | 'r' => some ('\r', rest)
    | 't' => some ('\t', rest)
    | 'u' => readCodePoint? 4 rest
    | 'U' => readCodePoint? 8 rest
    | 'x' =>
      let digits := (rest.take 2).takeWhile Text.isHexDigit
      if digits.isEmpty then some ('x', rest)
      else
        (lowByteChar? (Text.valueOf 16 digits)).map fun decoded =>
          (decoded, rest.drop digits.length)
    | _ =>
      if isOctalDigit c then
        let more := (rest.take 2).takeWhile isOctalDigit
        (lowByteChar? (Text.valueOf 8 (c :: more))).map fun decoded =>
          (decoded, rest.drop more.length)
      else
        some (c, rest)

/-- The decoded content of an escaped string after its opening quote, in at most `fuel` steps. An
escape must not write NUL. -/
def escapedContent? : Nat → List Char → Option (List Char × List Char)
  | 0, _ => none
  | _, [] => none
  | fuel + 1, c :: rest =>
    if c = '\'' then
      match rest with
      | '\'' :: after => (escapedContent? fuel after).map fun (s, left) => ('\'' :: s, left)
      | _ => some ([], rest)
    else if c = '\\' then do
      let (decoded, after) ← readEscape? rest
      if decoded = '\x00' then none
      else (escapedContent? fuel after).map fun (s, left) => (decoded :: s, left)
    else
      (escapedContent? fuel rest).map fun (s, left) => (c :: s, left)

/-! ## Unicode strings -/

/-- A code point in exactly `count` hexadecimal digits. -/
def readHexDigits : Nat → Nat → List Char → Scanned Char
  | 0, value, cs =>
    match charOf? value with
    | some c => .ok (c, cs)
    | none => .error ⟨.badCodePoint value, cs⟩
  | _ + 1, _, [] => .error ⟨.missingHexDigit, []⟩
  | count + 1, value, c :: rest =>
    match Text.hexValue? c with
    | some digit => readHexDigits count (value * 16 + digit) rest
    | none => .error ⟨.badHexDigit c, rest⟩

/-- The decoded content of a Unicode string after its opening quote, in at most `fuel` steps. -/
def unicodeContent : Nat → List Char → Scanned (List Char)
  | 0, cs => .error ⟨.unterminatedUnicodeString, cs⟩
  | _, [] => .error ⟨.unterminatedUnicodeString, []⟩
  | fuel + 1, c :: rest =>
    let continueWith (decoded : Char) (after : List Char) : Scanned (List Char) :=
      (unicodeContent fuel after).map fun (s, left) => (decoded :: s, left)
    if c = '\'' then
      match rest with
      | '\'' :: after => continueWith '\'' after
      | _ => .ok ([], rest)
    else if c = '\\' then
      match rest with
      | '\\' :: after => continueWith '\\' after
      | '+' :: after =>
        match readHexDigits 6 0 after with
        | .ok (decoded, after) => continueWith decoded after
        | .error fault => .error fault
      | _ =>
        match readHexDigits 4 0 rest with
        | .ok (decoded, after) => continueWith decoded after
        | .error fault => .error fault
    else
      continueWith c rest

/-! ## Comments -/

/-- A line comment after its mark; the line break belongs to it. -/
def scanLineComment (mark : String) (cs : List Char) : Token × List Char :=
  let line := cs.takeWhile (· != '\n')
  match cs.dropWhile (· != '\n') with
  | [] => (.lineComment mark (String.ofList line), [])
  | c :: left => (.lineComment mark (String.ofList (line ++ [c])), left)

/-- The content of a block comment after its opening mark. `depth` further comments are open, and
`last` is the character read before. Two neighbouring characters open or close a comment even when
one of them did so together with its other neighbour. -/
def blockContent : Nat → Char → List Char → Option (List Char × List Char)
  | _, _, [] => none
  | depth, last, c :: rest =>
    if last = '*' ∧ c = '/' then
      match depth with
      | 0 => some ([], rest)
      | outer + 1 => (blockContent outer c rest).map fun (s, left) => (c :: s, left)
    else
      let depth := if last = '/' ∧ c = '*' then depth + 1 else depth
      (blockContent depth c rest).map fun (s, left) => (c :: s, left)

/-- A block comment after its opening mark. -/
def scanBlockComment (cs : List Char) : Scanned Token :=
  match blockContent 0 ' ' cs with
  | some (content, left) =>
    -- the star of the closing mark was read as content
    .ok (.blockComment (String.ofList content.dropLast), left)
  | none => .error ⟨.unterminatedComment, []⟩

/-! ## Words and numbers -/

/-- An unquoted word that starts with the given characters. -/
def scanWord (d : Dialect) (start : List Char) (cs : List Char) : Token × List Char :=
  (.word (String.ofList (start ++ cs.takeWhile (isWordPart d))) none,
    cs.dropWhile (isWordPart d))

/-- The exponent at the head of a text: its letter, an optional sign and at least one digit. -/
def readExponent? (cs : List Char) : Option (List Char × List Char) :=
  match cs with
  | [] => none
  | letter :: rest =>
    if letter = 'e' ∨ letter = 'E' then
      let (sign, rest) := match rest with
        | '+' :: more => (['+'], more)
        | '-' :: more => (['-'], more)
        | _ => ([], rest)
      let digits := rest.takeWhile Char.isDigit
      if digits.isEmpty then none
      else some (letter :: sign ++ digits, rest.dropWhile Char.isDigit)
    else
      none

/-- A number after its exponent, with the suffix for long numbers. -/
def scanSuffix (digits : List Char) : List Char → Token × List Char
  | 'L' :: left => (.number (String.ofList digits) true, left)
  | left => (.number (String.ofList digits) false, left)

/-- The digits at the head of a text, with a period among them. -/
def readMantissa (cs : List Char) : List Char × List Char :=
  let whole := cs.takeWhile Char.isDigit
  match cs.dropWhile Char.isDigit with
  | '.' :: rest => (whole ++ '.' :: rest.takeWhile Char.isDigit, rest.dropWhile Char.isDigit)
  | rest => (whole, rest)

/-- A number or a period. In MySQL, digits that run into a word belong to it. -/
def scanNumber (d : Dialect) (cs : List Char) : Token × List Char :=
  match cs with
  | '0' :: 'x' :: rest =>
    (.literal .hexadecimal (String.ofList (rest.takeWhile Text.isHexDigit)),
      rest.dropWhile Text.isHexDigit)
  | _ =>
    let (digits, rest) := readMantissa cs
    if digits = ['.'] then
      (.punctuation .period, rest)
    else
      match readExponent? rest with
      | some (exponent, rest) => scanSuffix (digits ++ exponent) rest
      | none =>
        let exponentLetter := rest.head? == some 'e' || rest.head? == some 'E'
        let word := rest.takeWhile (isWordPart d)
        if d = .mysql && !exponentLetter && !word.isEmpty then
          (.word (String.ofList (digits ++ word)) none, rest.dropWhile (isWordPart d))
        else
          scanSuffix digits rest

/-! ## Dollar signs -/

/-- The content between two pairs of dollar signs, after the first pair. A dollar sign alone is
kept together with the character that follows it; `pending` tells that one was read just before. -/
def dollarContent : Bool → List Char → Option (List Char × List Char)
  | _, [] => none
  | pending, c :: rest =>
    if pending then
      if c = '$' then some ([], rest)
      else (dollarContent false rest).map fun (s, left) => ('$' :: c :: s, left)
    else if c = '$' then
      dollarContent true rest
    else
      (dollarContent false rest).map fun (s, left) => (c :: s, left)

/-- Compares the head of a text with a tag: the characters read up to the first difference, whether
there was none, and the text after them. Nothing at the end of the text. -/
def matchTag? : List Char → List Char → Option (List Char × Bool × List Char)
  | [], cs => some ([], true, cs)
  | _ :: _, [] => none
  | t :: tag, c :: rest =>
    if t = c then (matchTag? tag rest).map fun (read, same, left) => (c :: read, same, left)
    else some ([c], false, rest)

/-- The content up to a tag between dollar signs, in at most `fuel` steps. A candidate that turns
out different is kept, and the search goes on after it. -/
def taggedContent? (tag : List Char) : Nat → List Char → Option (List Char × List Char)
  | 0, _ => none
  | _, [] => none
  | fuel + 1, c :: rest =>
    if c = '$' then do
      let (read, same, left) ← matchTag? tag rest
      match same, left with
      | true, '$' :: left => some ([], left)
      | _, _ => (taggedContent? tag fuel left).map fun (s, left) => ('$' :: read ++ s, left)
    else
      (taggedContent? tag fuel rest).map fun (s, left) => (c :: s, left)

/-- The characters of a tag between dollar signs. -/
def isTagPart (c : Char) : Bool :=
  Text.isAlphanumeric c || c == '_'

/-- What a dollar sign starts, after it: a string or a parameter. -/
def scanDollar (cs : List Char) : Scanned Token :=
  match cs with
  | '$' :: rest =>
    match dollarContent false rest with
    | some (content, left) => .ok (.dollarQuoted none (String.ofList content), left)
    | none => .error ⟨.unterminatedDollarString, []⟩
  | _ =>
    let tag := cs.takeWhile isTagPart
    match cs.dropWhile isTagPart with
    | '$' :: rest =>
      match taggedContent? tag (rest.length + 1) rest with
      | some (content, left) =>
        .ok (.dollarQuoted (some (String.ofList tag)) (String.ofList content), left)
      | none => .error ⟨.unterminatedTaggedString, []⟩
    | left => .ok (.placeholder ("$" ++ String.ofList tag), left)

/-! ## Operators -/

/-- An operator: its text, whether a custom operator may continue it, and the operators that
continue it. Longer operators come before their beginnings. -/
def operators : List (String × Bool) :=
  [("->>", true), ("->", true), ("-", true), ("/", false), ("+", false), ("*", false),
    ("||/", true), ("||", true), ("|/", true), ("|", true),
    ("=>", false), ("==", false), ("=", false),
    ("!=", false), ("!!", false), ("!~~*", false), ("!~~", false), ("!~*", false),
    ("!~", false), ("!", false),
    ("<=>", true), ("<=", true), ("<>", true), ("<<", true), ("<@", true), ("<", true),
    (">=", true), (">>", true), (">", true),
    ("::", false), (":=", false), ("&&", true), ("&", true), ("^@", false), ("^", false),
    ("~*", true), ("~~*", true), ("~~", true), ("~", true), ("\\", false)]

/-- The marks by their character; the colon comes after the operators that start with it, and the
period is read with the numbers. -/
def punctuationOf? : Char → Option Punctuation
  | '(' => some .openParen
  | ')' => some .closeParen
  | ',' => some .comma
  | ';' => some .semicolon
  | ':' => some .colon
  | '[' => some .openBracket
  | ']' => some .closeBracket
  | '\x7b' => some .openBrace
  | '\x7d' => some .closeBrace
  | _ => none

/-- An operator of which the text is read, with the custom operator that may continue it. -/
def scanOperator (d : Dialect) (text : String) (continues : Bool) (cs : List Char) :
    Token × List Char :=
  let more := if continues then cs.takeWhile (isOperatorPart d) else []
  if !more.isEmpty then (.operator (text ++ String.ofList more), cs.drop more.length)
  else if text = "!=" then (.operator "<>", cs)
  else (.operator text, cs)

/-- The longest known operator at the head of a text. -/
def scanKnownOperator? (d : Dialect) (cs : List Char) : Option (Token × List Char) :=
  (operators.find? fun (text, _) => text.toList.isPrefixOf cs).map fun (text, continues) =>
    scanOperator d text continues (cs.drop text.length)

/-- What a number sign starts, after it. -/
def scanNumberSign (d : Dialect) (cs : List Char) : Token × List Char :=
  match d, cs with
  | .mysql, _ => scanLineComment "#" cs
  | _, '-' :: rest => scanOperator d "#-" true rest
  | _, '>' :: '>' :: rest => scanOperator d "#>>" true rest
  | _, '>' :: rest => scanOperator d "#>" true rest
  | _, ' ' :: _ => (.operator "#", cs)
  | .tsql, c :: rest => scanWord d ['#', c] rest
  | _, _ => scanOperator d "#" true cs

/-- What an at sign starts, after it. -/
def scanAtSign (d : Dialect) (cs : List Char) : Token × List Char :=
  let startsWord := isWordStart d '@'
  match cs with
  | '>' :: rest => (.operator "@>", rest)
  | '?' :: rest => (.operator "@?", rest)
  | '@' :: rest =>
    match rest with
    | [] | ' ' :: _ => (.operator "@@", rest)
    | c :: after => if startsWord then scanWord d ['@', '@', c] after else (.operator "@@", rest)
  | [] | ' ' :: _ => (.operator "@", cs)
  | c :: rest => if startsWord then scanWord d ['@', c] rest else (.operator "@", cs)

/-- What a percent sign starts, after it: a blank keeps custom operators away. -/
def scanPercent (d : Dialect) (cs : List Char) : Token × List Char :=
  match cs with
  | c :: _ => if Text.isBlank c then (.operator "%", cs) else scanOperator d "%" true cs
  | [] => (.operator "%", [])

/-- What a question mark starts, after it: a parameter with an optional number, but in Postgres an
operator, and one that stands alone drops the character after it. -/
def scanQuestionMark (d : Dialect) (cs : List Char) : Token × List Char :=
  match d, cs with
  | .postgres, '|' :: rest => (.operator "?|", rest)
  | .postgres, '&' :: rest => (.operator "?&", rest)
  | .postgres, _ => (.operator "?", cs.drop 1)
  | _, _ =>
    (.placeholder ("?" ++ String.ofList (cs.takeWhile Text.isNumeric)),
      cs.dropWhile Text.isNumeric)

/-! ## The next token -/

/-- What one of the letters that may introduce a literal starts, after it. -/
def scanLetter (d : Dialect) (letter : Char) (whole rest : List Char) : Scanned Token :=
  let word := Except.ok (scanWord d [letter] rest)
  match letter.toLower, rest with
  | 'b', '\'' :: _ =>
    if d = .postgres || d = .mysql then scanLiteral .bytes false rest else word
  | 'b', '"' :: _ =>
    if d = .postgres || d = .mysql then scanLiteral .bytesDouble false rest else word
  | 'n', '\'' :: _ => scanLiteral .national true rest
  | 'x', '\'' :: _ => scanLiteral .hexadecimal true rest
  | 'e', '\'' :: content =>
    match escapedContent? (content.length + 1) content with
    | some (decoded, left) => .ok (.literal .escaped (String.ofList decoded), left)
    | none => .error ⟨.unterminatedEscapedString, whole⟩
  | 'u', '&' :: '\'' :: content =>
    if d = .postgres then
      match unicodeContent (content.length + 1) content with
      | .ok (decoded, left) => .ok (.literal .unicode (String.ofList decoded), left)
      | .error fault => .error fault
    else
      word
  | _, _ => word

/-- The token that starts with the given character, after which `rest` is left, when the character
is none of the marks that are looked at first. -/
def scanPlain (d : Dialect) (c : Char) (rest : List Char) : Scanned Token :=
  let whole := c :: rest
  if "bBnNeEuUxX".toList.contains c then
    scanLetter d c whole rest
  else if opensName d c then
    scanQuotedName c whole
  else if c = '"' then
    scanLiteral .double (escapesStrings d) whole
  else if c.isDigit || c = '.' then
    .ok (scanNumber d whole)
  else
    match scanKnownOperator? d whole with
    | some found => .ok found
    | none =>
      match punctuationOf? c with
      | some mark => .ok (.punctuation mark, rest)
      | none =>
        if isWordStart d c then .ok (scanWord d [c] rest)
        else if c = '$' then scanDollar rest
        else if Text.isBlank c then .ok (.blank .space, rest)
        else .ok (.other c, rest)

/-- The token that starts with the given character, after which `rest` is left. -/
def scan (d : Dialect) (c : Char) (rest : List Char) : Scanned Token :=
  match c, rest with
  | ' ', _ => .ok (.blank .space, rest)
  | '\t', _ => .ok (.blank .tab, rest)
  | '\n', _ => .ok (.blank .newline, rest)
  | '\r', '\n' :: left => .ok (.blank .newline, left)
  | '\r', _ => .ok (.blank .newline, rest)
  | '\'', _ => scanLiteral .single (escapesStrings d) (c :: rest)
  | '-', '-' :: left => .ok (scanLineComment "--" left)
  | '/', '*' :: left => scanBlockComment left
  | '%', _ => .ok (scanPercent d rest)
  | '#', _ => .ok (scanNumberSign d rest)
  | '@', _ => .ok (scanAtSign d rest)
  | '?', _ => .ok (scanQuestionMark d rest)
  | _, _ => scanPlain d c rest

/-- The tokens of a text in at most `fuel` steps. -/
def scanAll (d : Dialect) : Nat → List Char → Except LexFault (List Token)
  | 0, _ => .ok []
  | _, [] => .ok []
  | fuel + 1, c :: rest => do
    let (token, left) ← scan d c rest
    let tokens ← scanAll d fuel left
    .ok (token :: tokens)

/-- Line and column after the given characters. -/
def positionAfter (cs : List Char) : Nat × Nat :=
  cs.foldl (fun (line, column) c => if c = '\n' then (line + 1, 1) else (line, column + 1)) (1, 1)

/-- The tokens of a text. Every token consumes at least one character, so the length of the text
bounds the number of steps. -/
def tokenize (d : Dialect) (sql : String) : Except LexError (List Token) :=
  let cs := sql.toList
  match scanAll d cs.length cs with
  | .ok tokens => .ok tokens
  | .error ⟨problem, left⟩ =>
    let (line, column) := positionAfter (cs.take (cs.length - left.length))
    .error ⟨problem, line, column⟩

end Token

end ReportSql
