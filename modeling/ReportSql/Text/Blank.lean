/-!
# Blank characters

The Unicode property *White_Space* and the trimming that goes with it. This set
is wider than ASCII blanks (it has the no-break space and the ideographic space)
and does not contain zero-width characters.

## Main definitions

* `Text.isBlank` - the property White_Space
* `Text.trim`, `Text.trimEnd` - a text without its outer, or trailing, blanks
-/

namespace ReportSql.Text

/-- The characters with the property White_Space. -/
def isBlank (c : Char) : Bool :=
  let n := c.toNat
  (0x9 ≤ n && n ≤ 0xD) || n == 0x20 || n == 0x85 || n == 0xA0 || n == 0x1680 ||
    (0x2000 ≤ n && n ≤ 0x200A) || n == 0x2028 || n == 0x2029 || n == 0x202F ||
    n == 0x205F || n == 0x3000

/-- A list without its trailing blanks. -/
def dropTrailingBlanks (cs : List Char) : List Char :=
  (cs.reverse.dropWhile isBlank).reverse

/-- A text without its trailing blanks. -/
def trimEnd (s : String) : String :=
  String.ofList (dropTrailingBlanks s.toList)

/-- A text without its leading and trailing blanks. -/
def trim (s : String) : String :=
  String.ofList (dropTrailingBlanks (s.toList.dropWhile isBlank))

end ReportSql.Text
