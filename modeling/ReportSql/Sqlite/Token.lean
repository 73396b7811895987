import ReportSql.Sqlite.Numeral

/-!
# Tokens of the database

How an SQLite database reads the text of a query. Blanks and comments separate
tokens and are not tokens themselves, and a NUL ends the text.

## Main definitions

* `Sqlite.Token` - a token
* `Sqlite.Lexeme` - a token with its place in a text
* `Sqlite.lexemes` - the tokens of a text

## Design notes

Operators of several characters are read as several symbols; nothing here depends
on where one of them ends.
-/

namespace ReportSql.Sqlite

/-- A token. Quotes and the marks of blobs are not part of the content. -/
inductive Token where
  | word (text : String)
  /-- A name between quotes or brackets, with the character that opens it. -/
  | quotedName (quote : Char) (name : String)
  | string (content : String)
  | blob (digits : List Char)
  | number (value : Numeral)
  | hexNumber (digits : List Char)
  /-- A parameter with the mark before its name. -/
  | parameter (spelling : String)
  | symbol (char : Char)
  | illegal
deriving DecidableEq, Repr

/-- A token and the text from its first character on. -/
structure Lexeme where
  token : Token
  source : List Char

/-- The characters that start a run of blanks. A vertical tab only goes on with one. -/
def startsSpace (c : Char) : Bool :=
  isSpace c && c != '\x0b'

/-- The characters that start a word. -/
def isWordStart (c : Char) : Bool :=
  c.isAlpha || c == '_' || 0x80 ≤ c.toNat

/-- The characters of words and of the names of parameters. -/
def isWordPart (c : Char) : Bool :=
  isWordStart c || c.isDigit || c == '$'

/-- The content up to a closing quote, a doubled quote standing for one, and the text after it. -/
def quoted? (quote : Char) : List Char → Option (List Char × List Char)
  | [] => none
  | [c] => if c = quote then some ([], []) else none
  | c :: d :: rest =>
    if c = quote then
      if d = quote then (quoted? quote rest).map fun (content, after) => (quote :: content, after)
      else some ([], d :: rest)
    else (quoted? quote (d :: rest)).map fun (content, after) => (c :: content, after)

/-- The token of a quoted content; a quote that is not closed takes the rest of the text. -/
def quotedToken (token : String → Token) (quote : Char) (cs : List Char) : Token × List Char :=
  match quoted? quote cs with
  | some (content, rest) => (token (String.ofList content), rest)
  | none => (.illegal, [])

/-- A name in brackets. -/
def bracketedToken (cs : List Char) : Token × List Char :=
  match cs.dropWhile (· ≠ ']') with
  | [] => (.illegal, [])
  | _ :: rest => (.quotedName '[' (String.ofList (cs.takeWhile (· ≠ ']'))), rest)

/-- A blob after its opening quote: hexadecimal digits in pairs. -/
def blobToken (cs : List Char) : Token × List Char :=
  let content := cs.takeWhile (· ≠ '\'')
  match cs.dropWhile (· ≠ '\'') with
  | [] => (.illegal, [])
  | _ :: rest =>
    if content.all Text.isHexDigit && content.length % 2 == 0 then (.blob content, rest)
    else (.illegal, rest)

/-- A token that must not run into a word. -/
def endingHere (token : Token) (cs : List Char) : Token × List Char :=
  match cs with
  | c :: _ => if isWordPart c then (.illegal, cs.dropWhile isWordPart) else (token, cs)
  | [] => (token, [])

/-- The digits at the head of a text, with separators, and the text after them. -/
def splitDigits (isDigit : Char → Bool) (cs : List Char) : List Char × List Char :=
  let counts := fun c => isDigit c || c == '_'
  (cs.takeWhile counts, cs.dropWhile counts)

/-- Whether every separator stands between two digits; `inside` holds after a digit. -/
def separates (isDigit : Char → Bool) : Bool → List Char → Bool
  | _, [] => true
  | inside, c :: rest =>
    if c = '_' then inside && rest.head?.any isDigit && separates isDigit false rest
    else separates isDigit (isDigit c) rest

/-- Whether digits follow the letter of an exponent. -/
def opensExponent : List Char → Bool
  | e :: sign :: d :: _ =>
    (e == 'e' || e == 'E') && (sign.isDigit || ((sign == '+' || sign == '-') && d.isDigit))
  | [e, d] => (e == 'e' || e == 'E') && d.isDigit
  | _ => false

/-- The decimal number at the head of a text as it is written, and the text after it. -/
def splitNumber (cs : List Char) : List Char × List Char :=
  let (whole, rest) := splitDigits Char.isDigit cs
  let (fraction, rest) := match rest with
    | '.' :: tail =>
      let (digits, rest) := splitDigits Char.isDigit tail
      ('.' :: digits, rest)
    | _ => ([], rest)
  if opensExponent rest then
    let (digits, after) := splitDigits Char.isDigit (rest.drop 2)
    (whole ++ fraction ++ rest.take 2 ++ digits, after)
  else (whole ++ fraction, rest)

/-- A number. -/
def numberToken (cs : List Char) : Token × List Char :=
  let isHex := match cs with
    | '0' :: x :: d :: _ => (x == 'x' || x == 'X') && Text.isHexDigit d
    | _ => false
  let isDigit := if isHex then Text.isHexDigit else Char.isDigit
  let (written, rest) := if isHex then splitDigits isDigit (cs.drop 2) else splitNumber cs
  let digits := written.filter (· != '_')
  endingHere
    (if !separates isDigit false written then .illegal
    else if isHex then .hexNumber digits
    else .number (readNumeral digits))
    rest

/-- The name of a parameter at the head of a text, whether it is a complete name, and the text
after it. Two colons may stand inside a name, and text in brackets after it; colons alone are no
name. -/
def readName : Nat → Bool → List Char → List Char × Bool × List Char
  | fuel + 1, named, c :: rest =>
    if isWordPart c then
      let (name, named, after) := readName fuel true rest
      (c :: name, named, after)
    else if c = '(' && named then
      let stop (c : Char) : Bool := c == ')' || isSpace c
      let inner := rest.takeWhile (!stop ·)
      match rest.dropWhile (!stop ·) with
      | ')' :: after => (c :: inner ++ [')'], true, after)
      | after => (c :: inner, false, after)
    else
      match c, rest with
      | ':', ':' :: tail =>
        let (name, named, after) := readName fuel named tail
        (':' :: ':' :: name, named, after)
      | _, _ => ([], named, c :: rest)
  | _, named, cs => ([], named, cs)

/-- A parameter after its mark. -/
def parameterToken (mark : Char) (cs : List Char) : Token × List Char :=
  match readName cs.length false cs with
  | (name, true, rest) => (.parameter (String.ofList (mark :: name)), rest)
  | (_, false, rest) => (.illegal, rest)

/-- The text after a comment in slashes and stars; one that is not closed takes the rest. -/
def afterComment : List Char → List Char
  | '*' :: '/' :: rest => rest
  | _ :: rest => afterComment rest
  | [] => []

/-- The symbols. -/
def isSymbol (c : Char) : Bool :=
  "();,+-*/%=<>|&~.!".toList.contains c

/-- The token at the head of a text, or nothing for blanks or a comment, and the text after it. -/
def scan : List Char → Option Token × List Char
  | [] => (none, [])
  | '-' :: '-' :: rest => (none, rest.dropWhile (· ≠ '\n'))
  | '/' :: '*' :: c :: rest => (none, afterComment (c :: rest))
  | 'x' :: '\'' :: rest | 'X' :: '\'' :: rest =>
    let (token, rest) := blobToken rest
    (some token, rest)
  | c :: rest =>
    let found (scanned : Token × List Char) : Option Token × List Char :=
      (some scanned.1, scanned.2)
    if startsSpace c then (none, rest.dropWhile isSpace)
    else if c = '\ufeff' then (none, rest)
    else if c = '\'' then found (quotedToken .string c rest)
    else if c = '"' || c = '\x60' then found (quotedToken (.quotedName c) c rest)
    else if c = '[' then found (bracketedToken rest)
    else if isWordStart c then
      (some (.word (String.ofList (c :: rest.takeWhile isWordPart))), rest.dropWhile isWordPart)
    else if c.isDigit || (c = '.' && (rest.head?.any Char.isDigit)) then
      found (numberToken (c :: rest))
    else if c = '?' then
      (some (.parameter (String.ofList (c :: rest.takeWhile Char.isDigit))),
        rest.dropWhile Char.isDigit)
    else if c = ':' || c = '@' || c = '$' || c = '#' then found (parameterToken c rest)
    else if isSymbol c then (some (.symbol c), rest)
    else (some .illegal, rest)

/-- The tokens of a text, read in at most `fuel` steps. -/
def scanAll : Nat → List Char → List Lexeme
  | 0, _ => []
  | _, [] => []
  | fuel + 1, cs =>
    match scan cs with
    | (some token, rest) => ⟨token, cs⟩ :: scanAll fuel rest
    | (none, rest) => scanAll fuel rest

/-- The tokens of a text. Every step reads a character. -/
def lexemes (sql : String) : List Lexeme :=
  let cs := sql.toList.takeWhile (· ≠ '\x00')
  scanAll cs.length cs

/-- The text from the place of some tokens to the place of the tokens after them, without blanks at
its end. -/
def spanText (start stop : List Lexeme) : String :=
  let place (lexemes : List Lexeme) : List Char := (lexemes.head?.map (·.source)).getD []
  let span := (place start).take ((place start).length - (place stop).length)
  String.ofList (span.reverse.dropWhile isSpace).reverse

end ReportSql.Sqlite
