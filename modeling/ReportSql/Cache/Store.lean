/-!
# Cache stores

A cache store holds one entry under each key: a text, the time at which it was
stored, and how long it may be used. Times are milliseconds.

## Main definitions

* `Cache.Entry` - a stored text with its times
* `Cache.Entry.isExpired` - whether an entry may no longer be used
* `Cache.Store` - what every store can do

## Design notes

Stores are values, and an operation that writes gives the store after it. Every
operation may fail, because some stores live outside the program.
-/

namespace ReportSql.Cache

/-- A stored text with the time of storing and the time that it may be used for. -/
structure Entry where
  payload : String
  createdMs : UInt64
  ttlMs : UInt64
deriving DecidableEq, Repr

/-- The difference of two words, zero where it would be negative. -/
def saturatingSub (a b : UInt64) : UInt64 :=
  if b ≤ a then a - b else 0

/-- An entry is expired once more time has passed than it may be used for. An entry from the future
has no age. -/
def Entry.isExpired (e : Entry) (nowMs : UInt64) : Bool :=
  e.ttlMs < saturatingSub nowMs e.createdMs

/-- How much a store holds. -/
structure Stats where
  entries : Nat
  bytes : Nat
deriving DecidableEq, Repr

/-- Why an operation of a cache fails. -/
inductive CacheError where
  | sqlite (message : String)
  | json
  | io (message : String)
  | poisoned
deriving DecidableEq, Repr

/-- The wording of an error. -/
def CacheError.message : CacheError → String
  | sqlite message => "SQLite error: " ++ message
  | json => "JSON serialization error: "
  | io message => "IO error: " ++ message
  | poisoned => "cache lock poisoned"

/-- What a store can do. -/
class Store (σ : Type) where
  /-- The entry under a key. -/
  get : σ → String → Except CacheError (Option Entry)
  /-- Stores an entry under a key, in place of an earlier one. -/
  set : σ → String → Entry → Except CacheError σ
  /-- Removes the entry under a key if it is expired, and tells whether one was removed. -/
  removeExpired : σ → String → UInt64 → Except CacheError (Bool × σ)
  /-- How much is held. -/
  stats : σ → Except CacheError Stats

end ReportSql.Cache
