import ReportSql.Text.Digit
import ReportSql.Toml.Value

/-!
# TOML keys and scalars

The values of a configuration document that stand on their own: strings in their
four forms, integers, floats, truth values, dates and times.

## Main definitions

* `Toml.readString?` - a string in any of its forms
* `Toml.readKey?` - a dotted key
* `Toml.readScalar?` - any other value without parts

## Design notes

The words for infinity and for no number become the greatest finite number, because
settings hold no fractions anyway.
-/

namespace ReportSql.Toml

/-- A blank within a line. -/
def isSpace (c : Char) : Bool :=
  c == ' ' || c == '\t'

/-- The text without leading blanks of its line. -/
def skipSpace (cs : List Char) : List Char :=
  cs.dropWhile isSpace

/-- The control characters, which no comment and no string may hold; a tab is none of them. -/
def isControl (c : Char) : Bool :=
  (c.toNat < 0x20 && c != '\t') || c.toNat == 0x7F

/-- A line break at the head of a text. -/
def readNewline? : List Char → Option (List Char)
  | '\n' :: rest => some rest
  | '\r' :: '\n' :: rest => some rest
  | _ => none

/-- A comment at the head of a text, if there is one, up to its line break. -/
def skipComment? (cs : List Char) : Option (List Char) :=
  match cs with
  | '#' :: rest =>
    let after := rest.dropWhile fun c => !isControl c
    match after with
    | [] => some []
    | _ => (readNewline? after).map fun _ => after
  | _ => some cs

/-! ## Strings -/

/-- A character by its code in `count` hexadecimal digits. -/
def readCode? (count : Nat) (cs : List Char) : Option (Char × List Char) :=
  let digits := cs.take count
  let code := Text.valueOf 16 digits
  if digits.length = count && digits.all Text.isHexDigit && code.isValidChar then
    some (Char.ofNat code, cs.drop count)
  else
    none

/-- An escape after its backslash. -/
def readEscape? : List Char → Option (Char × List Char)
  | 'b' :: rest => some ('\x08', rest)
  | 'e' :: rest => some ('\x1b', rest)
  | 't' :: rest => some ('\t', rest)
  | 'n' :: rest => some ('\n', rest)
  | 'f' :: rest => some ('\x0c', rest)
  | 'r' :: rest => some ('\r', rest)
  | '"' :: rest => some ('"', rest)
  | '\\' :: rest => some ('\\', rest)
  | 'x' :: rest => readCode? 2 rest
  | 'u' :: rest => readCode? 4 rest
  | 'U' :: rest => readCode? 8 rest
  | _ => none

/-- The content of a string on one line after its opening quote, in at most `fuel` steps. Only the
quoted form with `escapes` knows the backslash. -/
def readLine? (quote : Char) (escapes : Bool) : Nat → List Char → Option (List Char × List Char)
  | 0, _ => none
  | _, [] => none
  | fuel + 1, c :: rest =>
    if c = quote then some ([], rest)
    else if escapes && c = '\\' then do
      let (decoded, after) ← readEscape? rest
      (readLine? quote escapes fuel after).map fun (s, left) => (decoded :: s, left)
    else if isControl c then none
    else (readLine? quote escapes fuel rest).map fun (s, left) => (c :: s, left)

/-- The text without leading blanks and line breaks, in at most `fuel` steps. -/
def skipBlankLines : Nat → List Char → List Char
  | 0, cs => cs
  | fuel + 1, cs =>
    match readNewline? (skipSpace cs) with
    | some rest => skipBlankLines fuel rest
    | none => skipSpace cs

/-- The text after a backslash at the end of a line: the line break and all blanks that follow are
dropped. -/
def skipLineEnd? (cs : List Char) : Option (List Char) :=
  (readNewline? (skipSpace cs)).map fun rest => skipBlankLines rest.length rest

/-- The content of a string over several lines after its opening quotes, in at most `fuel` steps. Up
to two quotes may stand before the closing ones. -/
def readLines? (quote : Char) (escapes : Bool) : Nat → List Char → Option (List Char × List Char)
  | 0, _ => none
  | _, [] => none
  | fuel + 1, c :: rest =>
    if c = quote then
      let run := (c :: rest).takeWhile (· == quote)
      if run.length < 3 then
        (readLines? quote escapes fuel rest).map fun (s, left) => (c :: s, left)
      else if run.length ≤ 5 then
        some (run.drop 3, (c :: rest).drop run.length)
      else none
    else if escapes && c = '\\' then
      match skipLineEnd? rest with
      | some after => readLines? quote escapes fuel after
      | none => do
        let (decoded, after) ← readEscape? rest
        (readLines? quote escapes fuel after).map fun (s, left) => (decoded :: s, left)
    else
      match readNewline? (c :: rest) with
      | some after => (readLines? quote escapes fuel after).map fun (s, left) => ('\n' :: s, left)
      | none =>
        if isControl c then none
        else (readLines? quote escapes fuel rest).map fun (s, left) => (c :: s, left)

/-- A string over several lines after its opening quotes; a line break right there is dropped. -/
def readBlock? (quote : Char) (cs : List Char) : Option (List Char × List Char) :=
  let cs := (readNewline? cs).getD cs
  readLines? quote (quote == '"') (cs.length + 1) cs

/-- A string in any of its four forms. -/
def readString? : List Char → Option (String × List Char)
  | '"' :: '"' :: '"' :: rest =>
    (readBlock? '"' rest).map fun (s, left) => (String.ofList s, left)
  | '\'' :: '\'' :: '\'' :: rest =>
    (readBlock? '\'' rest).map fun (s, left) => (String.ofList s, left)
  | '"' :: rest =>
    (readLine? '"' true (rest.length + 1) rest).map fun (s, left) => (String.ofList s, left)
  | '\'' :: rest =>
    (readLine? '\'' false (rest.length + 1) rest).map fun (s, left) => (String.ofList s, left)
  | _ => none

/-! ## Keys -/

/-- The characters of a key without quotes. -/
def isBareKeyChar (c : Char) : Bool :=
  c.isAlphanum || c == '_' || c == '-'

/-- One part of a key; a quoted one stays on its line. -/
def readKeyPart? (cs : List Char) : Option (String × List Char) :=
  match cs with
  | '"' :: '"' :: '"' :: _ | '\'' :: '\'' :: '\'' :: _ => none
  | '"' :: _ | '\'' :: _ => readString? cs
  | _ =>
    let bare := cs.takeWhile isBareKeyChar
    if bare.isEmpty then none else some (String.ofList bare, cs.dropWhile isBareKeyChar)

/-- A key of one or more parts with points between them, in at most `fuel` parts. -/
def readKeyParts? : Nat → List Char → Option (List String × List Char)
  | 0, _ => none
  | fuel + 1, cs => do
    let (part, rest) ← readKeyPart? (skipSpace cs)
    match skipSpace rest with
    | '.' :: rest =>
      let (parts, rest) ← readKeyParts? fuel rest
      some (part :: parts, rest)
    | rest => some ([part], rest)

/-- The greatest number of parts of a key. -/
def greatestKeyLength : Nat := 80

/-- A dotted key and the text after it and its blanks. -/
def readKey? (cs : List Char) : Option (List String × List Char) :=
  readKeyParts? greatestKeyLength cs

/-! ## Numbers -/

/-- Digits in groups with single underscores between them. -/
def digitsOf? (isDigit : Char → Bool) (cs : List Char) : Option (List Char) :=
  let groups := cs.splitOnP (· == '_')
  if groups.all fun group => !group.isEmpty && group.all isDigit then some groups.flatten
  else none

/-- The sign before a number, true when it is negative. -/
def splitSign : List Char → Bool × List Char
  | '+' :: rest => (false, rest)
  | '-' :: rest => (true, rest)
  | cs => (false, cs)

/-- Decimal digits without a leading zero. -/
def wholeOf? (cs : List Char) : Option (List Char) := do
  let digits ← digitsOf? Char.isDigit cs
  if digits.head? == some '0' && 1 < digits.length then none else some digits

/-- An integer: decimal digits after an optional sign, or digits of another base after its mark. -/
def integerOf? (cs : List Char) : Option Int :=
  match cs with
  | '0' :: 'x' :: rest =>
    (digitsOf? Text.isHexDigit rest).map fun ds => (Text.valueOf 16 ds : Int)
  | '0' :: 'o' :: rest =>
    (digitsOf? (fun c => '0' ≤ c && c ≤ '7') rest).map fun ds => (Text.valueOf 8 ds : Int)
  | '0' :: 'b' :: rest =>
    (digitsOf? (fun c => c == '0' || c == '1') rest).map fun ds => (Text.valueOf 2 ds : Int)
  | _ =>
    let (negative, rest) := splitSign cs
    (wholeOf? rest).map fun ds =>
      if negative then -(Text.valueOf 10 ds : Int) else (Text.valueOf 10 ds : Int)

/-- The number `digits · 10 ^ power`, rounded once, or nothing beyond the finite range. -/
def decimalFloat? (negative : Bool) (digits : List Char) (power : Int) : Option Binary64 :=
  let significand := Text.valueOf 10 digits
  let place : Int := power + digits.length
  if significand = 0 ∨ place < -400 then Binary64.ofRatio? negative 0 1
  else if 400 + digits.length < place then none
  else if 0 ≤ power then Binary64.ofRatio? negative (significand * Nat.pow 10 power.toNat) 1
  else Binary64.ofRatio? negative significand (Nat.pow 10 (-power).toNat)

/-- The value of a float: a whole part with a fraction, an exponent or both, or one of the special
words. A float beyond the finite range has none. -/
def floatOf? (cs : List Char) : Option (Option Binary64) := do
  let (negative, rest) := splitSign cs
  if rest = "inf".toList ∨ rest = "nan".toList then
    some (some (Binary64.greatest negative))
  else
    let isExponentLetter := fun c => c == 'e' || c == 'E'
    let decimal := rest.takeWhile fun c => !isExponentLetter c
    let exponentPart := rest.dropWhile fun c => !isExponentLetter c
    let wholePart := decimal.takeWhile (· != '.')
    let fractionPart := decimal.dropWhile (· != '.')
    if fractionPart.isEmpty && exponentPart.isEmpty then
      none
    else
      let whole ← wholeOf? wholePart
      let fraction ← match fractionPart with
        | [] => some []
        | _ :: digits => digitsOf? Char.isDigit digits
      let exponent ← match exponentPart with
        | [] => some (0 : Int)
        | _ :: tail =>
          let (negative, digits) := splitSign tail
          (digitsOf? Char.isDigit digits).map fun ds =>
            if negative then -(Text.valueOf 10 ds : Int) else (Text.valueOf 10 ds : Int)
      some (decimalFloat? negative (whole ++ fraction) (exponent - fraction.length))

/-! ## Dates and times -/

/-- A number of exactly `count` digits between two bounds, and the text after it. -/
def readFixed? (count low high : Nat) (cs : List Char) : Option (Nat × List Char) :=
  let digits := cs.take count
  if digits.length = count && digits.all Char.isDigit then
    let value := Text.valueOf 10 digits
    if low ≤ value && value ≤ high then some (value, cs.drop count) else none
  else none

/-- The number of days of a month. -/
def daysIn (year month : Nat) : Nat :=
  if month = 2 then
    if year % 4 = 0 ∧ (year % 100 ≠ 0 ∨ year % 400 = 0) then 29 else 28
  else if month = 4 ∨ month = 6 ∨ month = 9 ∨ month = 11 then 30
  else 31

/-- A full date and the text after it. -/
def readDate? (cs : List Char) : Option (List Char) := do
  let (year, cs) ← readFixed? 4 0 9999 cs
  let cs ← cs.head? >>= fun c => if c = '-' then some cs.tail else none
  let (month, cs) ← readFixed? 2 1 12 cs
  let cs ← cs.head? >>= fun c => if c = '-' then some cs.tail else none
  let (_, cs) ← readFixed? 2 1 (daysIn year month) cs
  some cs

/-- A time of day with optional seconds and fractions of a second, and the text after it. -/
def readTime? (cs : List Char) : Option (List Char) := do
  let (_, cs) ← readFixed? 2 0 23 cs
  let cs ← cs.head? >>= fun c => if c = ':' then some cs.tail else none
  let (_, cs) ← readFixed? 2 0 59 cs
  match cs with
  | ':' :: rest =>
    let (_, cs) ← readFixed? 2 0 60 rest
    match cs with
    | '.' :: rest =>
      if (rest.takeWhile Char.isDigit).isEmpty then none else some (rest.dropWhile Char.isDigit)
    | _ => some cs
  | _ => some cs

/-- An optional offset from universal time, and the text after it. -/
def readOffset? (cs : List Char) : Option (List Char) :=
  match cs with
  | 'Z' :: rest | 'z' :: rest => some rest
  | '+' :: rest | '-' :: rest => do
    let (_, rest) ← readFixed? 2 0 23 rest
    let rest ← rest.head? >>= fun c => if c = ':' then some rest.tail else none
    let (_, rest) ← readFixed? 2 0 59 rest
    some rest
  | _ => some cs

/-- Whether a text is a date, a time or both. -/
def isDateTime (cs : List Char) : Bool :=
  match readDate? cs with
  | some [] => true
  | some (separator :: rest) =>
    (separator == 'T' || separator == 't' || separator == ' ') &&
      ((readTime? rest).bind readOffset?) == some []
  | none => readTime? cs == some []

/-! ## Scalars -/

/-- The characters of a value without quotes. -/
def isAtomChar (c : Char) : Bool :=
  c.isAlphanum || c == '_' || c == '-' || c == '+' || c == '.' || c == ':'

/-- The characters of a value without quotes at the head of a text, and the text after it. A date
may be followed by a blank and a time. -/
def splitAtom (cs : List Char) : List Char × List Char :=
  let atom := cs.takeWhile isAtomChar
  let rest := cs.dropWhile isAtomChar
  match rest with
  | ' ' :: c :: _ =>
    if readDate? atom = some [] && c.isDigit then
      let time := rest.tail.takeWhile isAtomChar
      (atom ++ ' ' :: time, rest.tail.dropWhile isAtomChar)
    else (atom, rest)
  | _ => (atom, rest)

/-- A value without quotes and without parts. -/
def atomOf? (atom : List Char) : Option Value :=
  if atom = "true".toList then some (.bool true)
  else if atom = "false".toList then some (.bool false)
  else
    match integerOf? atom with
    | some n => some (.integer n)
    | none =>
      match floatOf? atom with
      | some x => some (.float x)
      | none => if isDateTime atom then some (.dateTime (String.ofList atom)) else none

/-- A value without parts, and the text after it. -/
def readScalar? (cs : List Char) : Option (Value × List Char) :=
  match cs with
  | '"' :: _ | '\'' :: _ => (readString? cs).map fun (s, rest) => (.string s, rest)
  | _ =>
    let (atom, rest) := splitAtom cs
    (atomOf? atom).map fun value => (value, rest)

end ReportSql.Toml
