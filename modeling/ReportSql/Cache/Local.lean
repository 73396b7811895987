import ReportSql.Cache.Memory
import ReportSql.Cache.Sqlite
import ReportSql.Settings.Basic

/-!
# Stores by kind

The settings choose where results are kept; a local store is one of either kind.

## Main definitions

* `Cache.LocalStore` - a store in memory or in a database
* `Cache.LocalStore.new` - the new store of a kind
-/

namespace ReportSql.Cache

/-- A store in memory or in a database. -/
inductive LocalStore where
  | memory (store : MemoryStore)
  | sqlite (store : SqliteStore)

namespace LocalStore

/-- The new store of a kind. -/
def new : CacheBackend → LocalStore
  | .memory => memory .empty
  | .sqlite => sqlite .empty

instance : Store LocalStore where
  get
    | memory s, key => Store.get s key
    | sqlite s, key => Store.get s key
  set
    | memory s, key, entry => (Store.set s key entry).map memory
    | sqlite s, key, entry => (Store.set s key entry).map sqlite
  removeExpired
    | memory s, key, nowMs =>
      (Store.removeExpired s key nowMs).map fun (removed, s) => (removed, memory s)
    | sqlite s, key, nowMs =>
      (Store.removeExpired s key nowMs).map fun (removed, s) => (removed, sqlite s)
  stats
    | memory s => Store.stats s
    | sqlite s => Store.stats s

end LocalStore

end ReportSql.Cache
