import ReportSql.Cache.Store
import ReportSql.Json.Parser
import ReportSql.Json.Printer

/-!
# The result cache

Values kept as JSON texts in a store. Whether an entry may still be used is
decided when it is read, and reading an expired entry removes it.

## Main definitions

* `Cache.fetch` - the value under a key
* `Cache.put` - keeps a value under a key
-/

namespace ReportSql.Cache

/-- The value of a stored text. -/
def decode {α : Type} (read? : Json → Option α) (payload : String) : Except CacheError α :=
  match (Json.parse? payload).bind read? with
  | some value => .ok value
  | none => .error .json

/-- The store without the entry under a key, if that entry is expired and can be removed. -/
def evict {σ : Type} [Store σ] (store : σ) (key : String) (nowMs : UInt64) : σ :=
  match Store.removeExpired store key nowMs with
  | .ok (_, store) => store
  | .error _ => store

/-- The value under a key, if there is one that may be used, and the store after the look-up. -/
def fetch {σ α : Type} [Store σ] (read? : Json → Option α) (store : σ) (key : String)
    (nowMs : UInt64) : Except CacheError (Option α) × σ :=
  match Store.get store key with
  | .error e => (.error e, store)
  | .ok none => (.ok none, store)
  | .ok (some entry) =>
    if entry.isExpired nowMs then (.ok none, evict store key nowMs)
    else ((decode read? entry.payload).map some, store)

/-- A time in seconds as milliseconds, cut off at the greatest word. -/
def millisecondsOf (seconds : UInt64) : UInt64 :=
  UInt64.ofNat (min (seconds.toNat * 1000) (Nat.pow 2 64 - 1))

/-- The entry for a value. -/
def entryFor (value : Json) (ttlMs nowMs : UInt64) : Entry :=
  ⟨value.compact, nowMs, ttlMs⟩

/-- Keeps a value under a key for a time in milliseconds. -/
def put {σ : Type} [Store σ] (store : σ) (key : String) (value : Json) (ttlMs nowMs : UInt64) :
    Except CacheError σ :=
  Store.set store key (entryFor value ttlMs nowMs)

end ReportSql.Cache
