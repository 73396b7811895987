import ReportSql.Host
import ReportSql.Sqlite.Constant
import ReportSql.Sqlite.Location

/-!
# Hosts made of texts

A host given by a tree of text files and by variables. Its databases are SQLite
databases without tables, and its time stands still.

## Main definitions

* `FileTree` - directories and text files by their path
* `FileTree.locate` - the place that a path leads to
* `FileTree.makeDirectories` - the tree with the directories of a path
* `FileTree.openDatabase` - the location of a database and its file
* `FileTree.host` - the host with these files
-/

namespace ReportSql

/-- Text files by the names on the way to them, directories likewise, and the working directory. -/
structure FileTree where
  files : List (List String × String)
  directories : List (List String)
  current : List String

/-- What is found in a tree. -/
inductive FileNode where
  | file (text : String)
  | directory

namespace FileTree

/-! ## Places -/

/-- What is found at a place. The places on the way to something are directories. -/
def node? (t : FileTree) (place : List String) : Option FileNode :=
  match t.files.lookup place with
  | some text => some (.file text)
  | none =>
    let places := t.current :: t.directories ++ t.files.map (·.1)
    if places.any place.isPrefixOf then some .directory else none

/-- Whether a directory is found at a place. -/
def isDirectory (t : FileTree) (place : List String) : Bool :=
  t.node? place matches some .directory

/-- The most bytes in a name. -/
def longestName : Nat := 255

/-- The most bytes in a path. -/
def longestPath : Nat := 4095

/-- The place that the names of a path lead to from a directory. Only the last name may be that of
a file. -/
def walk (t : FileTree) (here : List String) : List String → Except FileError (List String)
  | [] => .ok here
  | name :: rest =>
    if name = "" || name = "." then t.walk here rest
    else if name = ".." then t.walk here.dropLast rest
    else if longestName < name.utf8ByteSize then .error .nameTooLong
    else
      match t.node? (here ++ [name]) with
      | some .directory => t.walk (here ++ [name]) rest
      | some (.file _) => if rest.isEmpty then .ok (here ++ [name]) else .error .notADirectory
      | none => .error .notFound

/-- The directory that a path starts from. -/
def start (t : FileTree) (path : String) : List String :=
  if path.startsWith "/" then [] else t.current

/-- Why nothing is looked up for a path. -/
def refusal? (path : String) : Option FileError :=
  FileError.ofPath? path <|>
    if longestPath < path.utf8ByteSize then some .nameTooLong
    else if path.isEmpty then some .notFound
    else none

/-- The place that a path leads to. -/
def locate (t : FileTree) (path : String) : Except FileError (List String) :=
  match refusal? path with
  | some cause => .error cause
  | none => t.walk (t.start path) (path.splitOn "/")

/-- The text of a file. -/
def read (t : FileTree) (path : String) : Except FileError String := do
  match t.node? (← t.locate path) with
  | some (.file text) => .ok text
  | some .directory => .error .isADirectory
  | none => .error .notFound

/-! ## Directories -/

/-- The tree with the directories that names lead to from a directory, the last name first. A file
among them is met as the last name of a path once a directory before it is new. -/
def makeWay (t : FileTree) (here : List String) : List String → Except FileError FileTree
  | [] => .ok t
  | name :: outer =>
    match t.walk here (name :: outer).reverse with
    | .ok place => if t.isDirectory place then .ok t else .error .alreadyExists
    | .error .notFound => do
      let t ← t.makeWay here outer
      let parent ← t.walk here outer.reverse
      match t.walk parent [name] with
      | .ok place => if t.isDirectory place then .ok t else .error .alreadyExists
      | .error .notFound => .ok { t with directories := (parent ++ [name]) :: t.directories }
      | .error cause => .error cause
    | .error cause => .error cause

/-- The tree with the directories of a path: those that all names but its last lead to. -/
def makeDirectories (t : FileTree) (path : String) : Except FileError FileTree :=
  match ((path.splitOn "/").filter fun name => name ≠ "" && name ≠ ".").reverse with
  | _ :: outer@(_ :: _) =>
    match refusal? ("/".intercalate outer.reverse) with
    | some cause => .error cause
    | none => t.makeWay (t.start path) outer
  | _ => .ok t

/-! ## Databases -/

/-- The bytes of the path of a place. -/
def pathSize (place : List String) : Nat :=
  place.foldl (fun total name => total + (name.utf8ByteSize + 1)) 0

/-- The place of a database. Here a name and the two dots after it cancel out even if nothing is
found under that name. -/
def databasePlace? (t : FileTree) (here : List String) : List String → Option (List String)
  | [] => if here.isEmpty || Sqlite.Location.longestPath < pathSize here then none else some here
  | name :: rest =>
    if name = "" || name = "." then t.databasePlace? here rest
    else if name = ".." then t.databasePlace? here.dropLast rest
    else if Sqlite.Location.longestWay < pathSize (here ++ [name]) then none
    else
      match t.walk [] (here ++ [name]) with
      | .ok _ | .error .notFound => t.databasePlace? (here ++ [name]) rest
      | .error _ => none

/-- The place of the file of a database, and the text in it; a file that is made for it has none.
A directory opens like a file where nothing is to be written. -/
def databaseFile (t : FileTree) (name : String) (l : Sqlite.Location) :
    Except String (List String × String) :=
  match t.databasePlace? (t.start l.path) (l.path.splitOn "/") with
  | none => .error (Sqlite.Location.cannotOpen name)
  | some place =>
    match t.node? place with
    | some (.file text) => .ok (place, text)
    | some .directory =>
      .error (if l.mode = .read then Sqlite.Location.notReadable
        else Sqlite.Location.cannotOpen name)
    | none =>
      if l.mode = .create && t.isDirectory place.dropLast then .ok (place, "")
      else .error (Sqlite.Location.cannotOpen name)

/-- Opens a database: its location, and the place and the text of its file if it has one. -/
def openDatabase (t : FileTree) (name : String) :
    Except String (Sqlite.Location × Option (List String × String)) := do
  let location ← Sqlite.Location.ofName name
  if location.isPrivate then return (location, none)
  else return (location, some (← t.databaseFile name location))

/-- Why no table can be made in a database that has been opened. -/
def databaseFault? (l : Sqlite.Location) (file : Option (List String × String)) : Option String :=
  let (place, text) := file.getD ([], "")
  if !text.isEmpty then some Sqlite.Location.notDatabase
  else if l.isReadOnly then some Sqlite.Location.notWritable
  else
    let journal := place.getLast?.getD "" ++ Sqlite.Location.journalSuffix
    if longestName < journal.utf8ByteSize then some Sqlite.Location.cannotOpenFile else none

/-- Opens a database of cached results, which has to take its tables. -/
def openCache (t : FileTree) (path : String) : Except Cache.CacheError Cache.SqliteStore := do
  let t ← (t.makeDirectories path).mapError fun cause => .io cause.message
  let (location, file) ← (t.openDatabase path).mapError .sqlite
  match databaseFault? location file with
  | some message => .error (.sqlite message)
  | none => .ok .empty

/-! ## The host -/

/-- The host with these files and some variables. -/
def host (t : FileTree) (env : Environment) : Host Id where
  getVariable name := env.lookup name
  readFile path := t.read path
  openDatabase path :=
    match t.openDatabase path with
    | .ok _ => .ok ⟨Sqlite.answer⟩
    | .error message => .error (.sqlite message)
  openCache path := t.openCache path
  clock := 0

end FileTree

end ReportSql
