import ReportSql.Cache.Store
import ReportSql.NameMap
import ReportSql.Text.Digit

/-!
# The store in a database

A store in two SQLite tables: one of results and one that records the version of
the layout. Times are signed 64-bit integers there, so greater ones are cut off.

## Main definitions

* `Cache.SqliteStore` - the rows of the two tables
* `Cache.SqliteStore.reopen` - the store after opening its database again
-/

namespace ReportSql.Cache

/-- A row of the table of results, its key apart. -/
structure ResultRow where
  payload : String
  created : Int64
  ttl : Int64
deriving DecidableEq, Repr

/-- The rows of the table of results by key, and the recorded version of the layout. -/
structure SqliteStore where
  results : NameMap ResultRow
  version : Option String

namespace SqliteStore

/-- The layout that this program reads and writes. -/
def currentVersion : Nat := 1

/-- The greatest signed 64-bit integer. -/
def greatestInteger : Nat := Nat.pow 2 63 - 1

/-- A time as a column holds it; a greater one becomes the greatest that fits. -/
def column (n : UInt64) : Int64 :=
  Int64.ofNat (min n.toNat greatestInteger)

/-- The time in a column; a negative one becomes zero. -/
def columnTime (n : Int64) : UInt64 :=
  UInt64.ofNat n.toInt.toNat

/-- The row of an entry. -/
def rowOf (e : Entry) : ResultRow :=
  ⟨e.payload, column e.createdMs, column e.ttlMs⟩

/-- The entry in a row. -/
def entryOf (r : ResultRow) : Entry :=
  ⟨r.payload, columnTime r.created, columnTime r.ttl⟩

/-- Whether a recorded version is the current one: decimal digits of its number, possibly after a
plus sign. -/
def isCurrentVersion (text : String) : Bool :=
  let digits := match text.toList with
    | '+' :: rest => rest
    | cs => cs
  digits.all Char.isDigit && Text.valueOf 10 digits == currentVersion

/-- A database whose tables have just been made. -/
def empty : SqliteStore := ⟨NameMap.empty, some (toString currentVersion)⟩

/-- The store after its database is opened again. Results of another layout are dropped; where no
version is recorded they are kept. -/
def reopen (s : SqliteStore) : SqliteStore :=
  match s.version with
  | none => { s with version := some (toString currentVersion) }
  | some text => if isCurrentVersion text then s else empty

/-- The entry under a key. -/
def get? (s : SqliteStore) (key : String) : Option Entry :=
  (s.results.get? key).map entryOf

/-- Stores an entry. -/
def set (s : SqliteStore) (key : String) (entry : Entry) : SqliteStore :=
  { s with results := s.results.insert key (rowOf entry) }

/-- Whether the age of a row, which may be negative, exceeds the time that it may be used for. -/
def ResultRow.isExpired (r : ResultRow) (nowMs : UInt64) : Bool :=
  r.ttl.toInt < (column nowMs).toInt - r.created.toInt

/-- Removes an expired row. -/
def removeExpired (s : SqliteStore) (key : String) (nowMs : UInt64) : Bool × SqliteStore :=
  if (s.results.get? key).any (ResultRow.isExpired · nowMs) then
    (true, { s with results := s.results.erase key })
  else
    (false, s)

/-- The length of a text for the database: its characters before the first NUL. -/
def textLength (text : String) : Nat :=
  (text.toList.takeWhile (· ≠ '\x00')).length

/-- How much is held; texts count in characters. -/
def stats (s : SqliteStore) : Stats :=
  ⟨s.results.size, s.results.entries.foldl (fun total (_, row) => total + textLength row.payload) 0⟩

instance : Store SqliteStore where
  get s key := .ok (s.get? key)
  set s key entry := .ok (s.set key entry)
  removeExpired s key nowMs := .ok (s.removeExpired key nowMs)
  stats s := .ok s.stats

end SqliteStore

end ReportSql.Cache
