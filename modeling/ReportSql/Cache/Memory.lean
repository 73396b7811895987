import ReportSql.Cache.Store
import ReportSql.NameMap

/-!
# The store in memory

A store that lives as long as the program and never fails.

## Main definitions

* `Cache.MemoryStore` - entries by key
-/

namespace ReportSql.Cache

/-- Entries by key. -/
structure MemoryStore where
  entries : NameMap Entry

namespace MemoryStore

/-- The store without entries. -/
def empty : MemoryStore := ⟨NameMap.empty⟩

/-- The entry under a key. -/
def get? (s : MemoryStore) (key : String) : Option Entry :=
  s.entries.get? key

/-- Stores an entry. -/
def set (s : MemoryStore) (key : String) (entry : Entry) : MemoryStore :=
  ⟨s.entries.insert key entry⟩

/-- Whether the entry under a key is expired. -/
def holdsExpired (s : MemoryStore) (key : String) (nowMs : UInt64) : Bool :=
  (s.get? key).any (·.isExpired nowMs)

/-- Removes an expired entry. -/
def removeExpired (s : MemoryStore) (key : String) (nowMs : UInt64) : Bool × MemoryStore :=
  if s.holdsExpired key nowMs then (true, ⟨s.entries.erase key⟩) else (false, s)

/-- How much is held; texts count in bytes. -/
def stats (s : MemoryStore) : Stats :=
  ⟨s.entries.size, s.entries.entries.foldl (fun total (_, entry) => total + entry.payload.utf8ByteSize) 0⟩

instance : Store MemoryStore where
  get s key := .ok (s.get? key)
  set s key entry := .ok (s.set key entry)
  removeExpired s key nowMs := .ok (s.removeExpired key nowMs)
  stats s := .ok s.stats

end MemoryStore

end ReportSql.Cache
