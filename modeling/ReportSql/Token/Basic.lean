import ReportSql.Text.Case

/-!
# Tokens of author statements

A statement written by a report author is a list of tokens, blanks and comments
included. String literals, quoted names and comments are single tokens, so a
search for keywords only ever sees unquoted words.

## Main definitions

* `Token` - a token, and `Token.text`, the text that it prints
* `Token.isTrivia`, `Token.isBlank`, `Token.isLineComment` - classes of tokens
* `Token.unquotedWord?` - an unquoted word in upper case
* `Token.isKeyword` - a given unquoted word in any ASCII case

## Design notes

Quotes doubled inside a literal or a quoted name are kept doubled, so that such a
token prints as it was written.
-/

namespace ReportSql

/-- The marks that give a statement its shape. -/
inductive Punctuation where
  | comma
  | semicolon
  | period
  | colon
  | openParen
  | closeParen
  | openBrace
  | closeBrace
  | openBracket
  | closeBracket
deriving DecidableEq, Repr

/-- The character of a mark. -/
def Punctuation.char : Punctuation → Char
  | comma => ','
  | semicolon => ';'
  | period => '.'
  | colon => ':'
  | openParen => '('
  | closeParen => ')'
  | openBrace => '\x7b'
  | closeBrace => '\x7d'
  | openBracket => '['
  | closeBracket => ']'

/-- A blank. -/
inductive Blank where
  | space
  | tab
  | newline
deriving DecidableEq, Repr

/-- The character of a blank. -/
def Blank.char : Blank → Char
  | space => ' '
  | tab => '\t'
  | newline => '\n'

/-- The kinds of string literals. -/
inductive LiteralKind where
  | single
  | double
  | bytes
  | bytesDouble
  | national
  | escaped
  | unicode
  | hexadecimal
deriving DecidableEq, Repr

/-- The letters printed before the opening quote. -/
def LiteralKind.letters : LiteralKind → String
  | single | double => ""
  | bytes | bytesDouble => "B"
  | national => "N"
  | escaped => "E"
  | unicode => "U&"
  | hexadecimal => "X"

/-- The quote around a literal. -/
def LiteralKind.quote : LiteralKind → Char
  | double | bytesDouble => '"'
  | _ => '\''

/-- A token of an author statement. -/
inductive Token where
  /-- A word; a quoted one carries its opening quote. -/
  | word (value : String) (quote : Option Char)
  /-- A number, and whether it has the suffix for long numbers. -/
  | number (digits : String) (long : Bool)
  | literal (kind : LiteralKind) (content : String)
  /-- A string between dollar signs, with its tag. -/
  | dollarQuoted (tag : Option String) (content : String)
  /-- A parameter marked by a question mark or a dollar sign. -/
  | placeholder (text : String)
  | punctuation (mark : Punctuation)
  | operator (text : String)
  | blank (kind : Blank)
  /-- A comment to the end of its line, with the mark that opens it. -/
  | lineComment (mark : String) (content : String)
  | blockComment (content : String)
  /-- A character that stands for nothing. -/
  | other (char : Char)
deriving DecidableEq, Repr

namespace Token

/-- The closing quote that belongs to an opening one. -/
def closingQuote (quote : Char) : Char :=
  if quote = '[' then ']' else quote

/-- The text that a token prints. -/
def text : Token → String
  | word value none => value
  | word value (some quote) => String.singleton quote ++ value.push (closingQuote quote)
  | number digits long => if long then digits.push 'L' else digits
  | literal kind content => (kind.letters.push kind.quote ++ content).push kind.quote
  | dollarQuoted none content => "$$" ++ content ++ "$$"
  | dollarQuoted (some tag) content => "$" ++ tag ++ "$" ++ content ++ "$" ++ tag ++ "$"
  | placeholder text => text
  | punctuation mark => String.singleton mark.char
  | operator text => text
  | blank kind => String.singleton kind.char
  | lineComment mark content => mark ++ content
  | blockComment content => "/*" ++ content ++ "*/"
  | other char => String.singleton char

theorem text_word (value : String) : (word value none).text = value := by
  rw [text]

/-- The text of a list of tokens. -/
def textOf (tokens : List Token) : String :=
  String.join (tokens.map text)

/-- Blanks and comments. -/
def isTrivia : Token → Bool
  | blank _ | lineComment _ _ | blockComment _ => true
  | _ => false

/-- Blanks, comments excluded. -/
def isBlank : Token → Bool
  | blank _ => true
  | _ => false

/-- A comment that runs to the end of its line. -/
def isLineComment : Token → Bool
  | lineComment _ _ => true
  | _ => false

/-- The upper-case text of an unquoted word. -/
def unquotedWord? : Token → Option String
  | word value none => some (Text.upperAscii value)
  | _ => none

/-- The unquoted word given in upper case, in any ASCII case. -/
def isKeyword (keyword : String) (t : Token) : Bool :=
  t.unquotedWord? == some keyword

/-- The rest of a token list from its first token that is neither blank nor comment. -/
def skipTrivia (tokens : List Token) : List Token :=
  tokens.dropWhile isTrivia

/-- The first token that is neither blank nor comment. -/
def firstSignificant? (tokens : List Token) : Option Token :=
  (skipTrivia tokens).head?

end Token

end ReportSql
