import ReportSql.Text.Digit

/-!
# Locations of databases

What the name of an SQLite database stands for. A name that starts with the scheme
`file:` is a URI with a path and options; any other name is a path. A database
without a path is kept in memory.

## Main definitions

* `Sqlite.Location` - the place of a database and how it may be used
* `Sqlite.Location.ofName` - the location that a name stands for, or why there is none
* `Sqlite.Location.isPrivate` - whether a location has no file
-/

namespace ReportSql.Sqlite

/-- How a database may be used. A file that is missing is only made where one may be created. -/
inductive Mode where
  | read
  | write
  | create
  | memory
deriving DecidableEq, Repr

namespace Mode

/-- The mode with a name. -/
def ofName? : String → Option Mode
  | "ro" => some read
  | "rw" => some write
  | "rwc" => some create
  | "memory" => some memory
  | _ => none

/-- Whether a database in one mode may be asked for in another. Memory can always be asked for, and
everything can be asked of it. -/
def grants : Mode → Mode → Bool
  | memory, _ | _, memory | create, _ | _, read | write, write => true
  | _, _ => false

end Mode

/-- The place of a database and how it may be used. -/
structure Location where
  path : String
  mode : Mode
  /-- The name of the layer that keeps files. -/
  layer : String
  /-- Whether nobody writes to the file, this program included. -/
  isFrozen : Bool
deriving DecidableEq, Repr

namespace Location

/-- The layer that is used where none is named. -/
def defaultLayer : String := "unix"

/-- The layer that keeps files in memory. -/
def memoryLayer : String := "memdb"

/-- The layers that keep files. -/
def layers : List String :=
  [defaultLayer, "unix-none", "unix-dotfile", "unix-excl", memoryLayer]

/-- The location of a path. -/
def ofPath (path : String) : Location := ⟨path, .create, defaultLayer, false⟩

/-- Whether no layer is asked for a file. -/
def isUnfiled (l : Location) : Bool :=
  l.path.isEmpty || l.path == ":memory:" || l.mode == .memory

/-- Whether a location has no file on the system. -/
def isPrivate (l : Location) : Bool :=
  l.isUnfiled || l.layer == memoryLayer

/-- Whether nothing can be written. -/
def isReadOnly (l : Location) : Bool :=
  l.mode == .read || (l.isFrozen && !l.isUnfiled)

/-! ## Escapes -/

/-- The bytes of a text with escapes: a percent sign and two hexadecimal digits stand for a byte. An
escaped NUL ends the text. -/
def unescape : List Char → List UInt8
  | [] => []
  | '%' :: a :: b :: rest =>
    match Text.hexValue? a, Text.hexValue? b with
    | some x, some y =>
      if x = 0 && y = 0 then [] else UInt8.ofNat (16 * x + y) :: unescape rest
    | _, _ => String.utf8EncodeChar '%' ++ unescape (a :: b :: rest)
  | c :: rest => String.utf8EncodeChar c ++ unescape rest

/-- The text that a part of a URI writes. One whose bytes make no text stays as it is. -/
def decoded (cs : List Char) : String :=
  (String.fromUTF8? ⟨(unescape cs).toArray⟩).getD (String.ofList cs)

/-! ## Options -/

/-- Whether the value of an option says yes: a word for it, or a number of 31 bits whose last byte
is not zero. -/
def saysYes (value : String) : Bool :=
  match value.toList.takeWhile Char.isDigit with
  | [] => ["on", "yes", "true"].contains value.toLower
  | digits =>
    let n := Text.valueOf 10 digits
    n < Nat.pow 2 31 && n % 256 ≠ 0

/-- An option: a name, and a value after an equals sign. Without a name there is none. -/
def option? (text : String) : Option (String × String) :=
  let cs := text.toList
  let name := decoded (cs.takeWhile (· ≠ '='))
  if name.isEmpty then none
  else some (name, decoded ((cs.dropWhile (· ≠ '=')).drop 1))

/-- A location with an option. Options of other names have no effect here. -/
def withOption (l : Location) : String × String → Except String Location
  | ("vfs", value) => .ok { l with layer := value }
  | ("cache", value) =>
    if value = "shared" || value = "private" then .ok l
    else .error ("no such cache mode: " ++ value)
  | ("mode", value) =>
    match Mode.ofName? value with
    | none => .error ("no such access mode: " ++ value)
    | some mode =>
      if l.mode.grants mode then .ok { l with mode }
      else .error ("access mode not allowed: " ++ value)
  | _ => .ok l

/-- The location of a path with options. The first option decides whether the file is frozen. -/
def ofOptions (path : String) (options : List (String × String)) : Except String Location := do
  let isFrozen := (options.lookup "immutable").any saysYes
  let l ← options.foldlM withOption { ofPath path with isFrozen }
  if layers.contains l.layer then .ok l else .error ("no such vfs: " ++ l.layer)

/-! ## Names -/

/-- The part of a URI after its authority, which can only be this machine. -/
def afterAuthority : List Char → Except String (List Char)
  | '/' :: '/' :: rest =>
    let authority := String.ofList (rest.takeWhile (· ≠ '/'))
    if authority = "" || authority = "localhost" then .ok (rest.dropWhile (· ≠ '/'))
    else .error ("invalid uri authority: " ++ authority)
  | cs => .ok cs

/-- The location of a URI after its scheme: a path, and options after a question mark. A hash mark
ends both. -/
def ofUri (cs : List Char) : Except String Location := do
  let cs := (← afterAuthority cs).takeWhile (· ≠ '#')
  let options := String.ofList ((cs.dropWhile (· ≠ '?')).drop 1)
  ofOptions (decoded (cs.takeWhile (· ≠ '?'))) ((options.splitOn "&").filterMap option?)

/-- The location that a name stands for, or why there is none. -/
def ofName (name : String) : Except String Location :=
  let visible := name.toList.takeWhile (· ≠ '\x00')
  if visible.length < name.length then
    .error ("nul byte found in provided data at position: " ++
      toString (String.ofList visible).utf8ByteSize)
  else if name.startsWith "file:" then ofUri (name.toList.drop 5)
  else .ok (ofPath name)

/-! ## Failures -/

/-- What is said of a file that cannot be opened. -/
def cannotOpenFile : String := "unable to open database file"

/-- What is said of a name whose file cannot be opened. -/
def cannotOpen (name : String) : String :=
  cannotOpenFile ++ ": " ++ name

/-- What is said of a file that cannot be read. -/
def notReadable : String := "disk I/O error"

/-- What is said of a file with other content. -/
def notDatabase : String := "file is not a database"

/-- What is said of a table that cannot be made. -/
def notWritable : String := "attempt to write a readonly database"

/-- The longest path of a file, in bytes. -/
def longestPath : Nat := 504

/-- The longest path on the way to one, in bytes. -/
def longestWay : Nat := 511

/-- What is added to the path of a file for the file that makes changes safe. -/
def journalSuffix : String := "-journal"

end Location

end ReportSql.Sqlite
