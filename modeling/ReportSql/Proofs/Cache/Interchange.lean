import ReportSql.Proofs.Cache.Lawful
import ReportSql.Proofs.Except

/-!
# Stores that answer alike

As long as all times fit 63 bits, the store in a database mirrors the one in memory: it has a row
for every entry, and it answers every call in the same way, with one exception. How much is held is
counted in bytes by one store and in characters up to the first NUL by the other, so the numbers
agree just when every text that is held consists of one-byte characters without a NUL.

## Main definitions

* `Cache.Call` - a call of a store, and `Cache.performAll`, the answers to several
* `Cache.SqliteStore.Mirrors` - the rows of a database are those of the entries in memory
* `Cache.IsPlainText` - a text that is as long in characters as in bytes

## Main results

* `Cache.SqliteStore.Mirrors.perform` - one call
* `Cache.performAll_interchange` - any calls of new stores
-/

namespace ReportSql.Cache

/-! ## Calls -/

/-- A call of a store. -/
inductive Call where
  | get (key : String)
  | set (key : String) (entry : Entry)
  | removeExpired (key : String) (now : UInt64)
  | stats

/-- What a store answers. -/
inductive Answer where
  | found (entry : Option Entry)
  | stored
  | removed (any : Bool)
  | holds (stats : Stats)
deriving DecidableEq

section Stores

variable {σ : Type} [Store σ]

/-- The answer to a call, and the store after it. -/
def perform (store : σ) : Call → Except CacheError (Answer × σ)
  | .get key => (Store.get store key).map fun entry => (.found entry, store)
  | .set key entry => (Store.set store key entry).map fun store => (.stored, store)
  | .removeExpired key now =>
    (Store.removeExpired store key now).map fun (any, store) => (.removed any, store)
  | .stats => (Store.stats store).map fun stats => (.holds stats, store)

/-- The answers to calls in turn, and the store after them. -/
def performAll (store : σ) : List Call → Except CacheError (List Answer × σ)
  | [] => .ok ([], store)
  | call :: rest => do
    let (answer, store) ← perform store call
    let (answers, store) ← performAll store rest
    .ok (answer :: answers, store)

end Stores

/-! ## Lengths of texts -/

/-- A text of one-byte characters without a NUL. -/
def IsPlainText (text : String) : Prop :=
  ∀ c ∈ text.toList, c ≠ '\x00' ∧ c.utf8Size = 1

instance (text : String) : Decidable (IsPlainText text) :=
  inferInstanceAs (Decidable (∀ c ∈ text.toList, _))

theorem length_takeWhile_le_utf8Len (cs : List Char) :
    (cs.takeWhile (· ≠ '\x00')).length ≤ String.utf8Len cs ∧
      ((cs.takeWhile (· ≠ '\x00')).length = String.utf8Len cs ↔
        ∀ c ∈ cs, c ≠ '\x00' ∧ c.utf8Size = 1) := by
  induction cs with
  | nil => simp
  | cons c cs ih =>
    obtain ⟨hle, hiff⟩ := ih
    have hpos := c.utf8Size_pos
    rw [String.utf8Len_cons, List.forall_mem_cons]
    by_cases hc : c = '\x00'
    · -- nothing is counted from a NUL on, which is a byte itself
      rw [List.takeWhile_cons_of_neg (by simp [hc]), List.length_nil]
      refine ⟨Nat.zero_le _, fun h => ?_, fun h => absurd hc h.1.1⟩
      omega
    · rw [List.takeWhile_cons_of_pos (by simp [hc]), List.length_cons]
      refine ⟨by omega, fun h => ⟨⟨hc, by omega⟩, hiff.1 (by omega)⟩, fun h => ?_⟩
      rw [hiff.2 h.2, h.1.2]

/-- A text has at most as many characters before its first NUL as it has bytes. -/
theorem textLength_le (text : String) :
    SqliteStore.textLength text ≤ text.utf8ByteSize ∧
      (SqliteStore.textLength text = text.utf8ByteSize ↔ IsPlainText text) := by
  have hbytes : text.utf8ByteSize = String.utf8Len text.toList := by
    rw [← String.utf8ByteSize_ofList, String.ofList_toList]
  rw [hbytes]
  exact length_takeWhile_le_utf8Len text.toList

/-! ## Times -/

/-- A time that a column holds as it is. -/
def FitsColumn (time : UInt64) : Prop :=
  time.toNat < 2 ^ 63

instance (time : UInt64) : Decidable (FitsColumn time) :=
  inferInstanceAs (Decidable (_ < _))

/-- An entry whose times fit. -/
structure Entry.Fits (e : Entry) : Prop where
  created : FitsColumn e.createdMs
  ttl : FitsColumn e.ttlMs

instance (e : Entry) : Decidable e.Fits :=
  decidable_of_iff (FitsColumn e.createdMs ∧ FitsColumn e.ttlMs)
    ⟨fun h => ⟨h.1, h.2⟩, fun h => ⟨h.created, h.ttl⟩⟩

/-- A call whose times fit. -/
def Call.Fits : Call → Prop
  | .set _ entry => entry.Fits
  | .removeExpired _ now => FitsColumn now
  | .get _ | .stats => True

instance : DecidablePred Call.Fits
  | .set _ entry => inferInstanceAs (Decidable entry.Fits)
  | .removeExpired _ now => inferInstanceAs (Decidable (FitsColumn now))
  | .get _ | .stats => inferInstanceAs (Decidable True)

namespace SqliteStore

theorem toInt_column_of_fits {time : UInt64} (h : FitsColumn time) :
    (column time).toInt = time.toNat := by
  have hgreatest : greatestInteger = 2 ^ 63 - 1 := rfl
  unfold FitsColumn at h
  rw [toInt_column]
  omega

/-- An entry whose times fit comes back as it was stored. -/
theorem entryOf_rowOf {e : Entry} (h : e.Fits) : entryOf (rowOf e) = e := by
  have htime : ∀ {time : UInt64}, FitsColumn time → columnTime (column time) = time := by
    intro time hfits
    rw [columnTime, toInt_column_of_fits hfits, Int.toNat_natCast, UInt64.ofNat_toNat]
  rw [rowOf, entryOf, htime h.created, htime h.ttl]

/-- Both stores tell alike whether it is expired: a negative age exceeds no time span. -/
theorem isExpired_rowOf {e : Entry} {now : UInt64} (h : e.Fits) (hnow : FitsColumn now) :
    ResultRow.isExpired (rowOf e) now = e.isExpired now := by
  rw [Bool.eq_iff_iff, ResultRow.isExpired, Entry.isExpired, decide_eq_true_iff, decide_eq_true_iff,
    UInt64.lt_iff_toNat_lt, toNat_saturatingSub, rowOf, toInt_column_of_fits hnow,
    toInt_column_of_fits h.created, toInt_column_of_fits h.ttl]
  omega

/-! ## Rows and entries -/

/-- The rows of a database are those of the entries in memory, and their times fit. -/
structure Mirrors (d : SqliteStore) (m : MemoryStore) : Prop where
  results : d.results = m.entries.mapValues rowOf
  fits : ∀ key e, m.get? key = some e → e.Fits

theorem mirrors_empty : empty.Mirrors .empty :=
  ⟨rfl, fun _ _ h => absurd h.symm (Option.some_ne_none _)⟩

namespace Mirrors

variable {d : SqliteStore} {m : MemoryStore} {key : String}

theorem get? (h : d.Mirrors m) (key : String) : d.get? key = m.get? key := by
  rw [SqliteStore.get?, h.results, NameMap.get?_mapValues]
  cases hentry : m.entries.get? key with
  | none => exact hentry.symm
  | some e => exact (congrArg some (entryOf_rowOf (h.fits key e hentry))).trans hentry.symm

theorem set (h : d.Mirrors m) (key : String) {e : Entry} (he : e.Fits) :
    (d.set key e).Mirrors (m.set key e) := by
  constructor
  · show d.results.insert key (rowOf e) = (m.entries.insert key e).mapValues rowOf
    rw [h.results, NameMap.mapValues_insert]
  · intro k found hfound
    have hget := (NameMap.get?_insert m.entries key e k).symm.trans hfound
    split at hget
    · obtain rfl := Option.some.inj hget
      exact he
    · exact h.fits k found hget

theorem removeExpired (h : d.Mirrors m) (key : String) {now : UInt64} (hnow : FitsColumn now) :
    (d.removeExpired key now).1 = (m.removeExpired key now).1 ∧
      (d.removeExpired key now).2.Mirrors (m.removeExpired key now).2 := by
  have htest : (d.results.get? key).any (ResultRow.isExpired · now) = m.holdsExpired key now := by
    rw [h.results, NameMap.get?_mapValues, MemoryStore.holdsExpired]
    cases hentry : m.entries.get? key with
    | none => rw [MemoryStore.get?, hentry]; rfl
    | some e =>
      rw [MemoryStore.get?, hentry]
      exact isExpired_rowOf (h.fits key e hentry) hnow
  -- with the same test, both stores either erase the key or stay as they are
  unfold SqliteStore.removeExpired MemoryStore.removeExpired
  rw [htest]
  split
  · refine ⟨rfl, ?_, fun k found hfound => ?_⟩
    · show d.results.erase key = (m.entries.erase key).mapValues rowOf
      rw [h.results, NameMap.mapValues_erase]
    · have hget := (NameMap.get?_erase m.entries key k).symm.trans hfound
      split at hget
      · exact absurd hget.symm (Option.some_ne_none found)
      · exact h.fits k found hget
  · exact ⟨rfl, h⟩

end Mirrors

end SqliteStore

/-! ## How much is held -/

/-- Every text that is held is plain. -/
def MemoryStore.IsPlain (m : MemoryStore) : Prop :=
  ∀ held ∈ m.entries.entries, IsPlainText held.2.payload

/-- The lengths of texts do not exceed their bytes, in sum. -/
theorem foldl_textLength_le (entries : List (String × Entry)) {a b : Nat} (hab : a ≤ b) :
    let characters := (entries.map fun e => (e.1, SqliteStore.rowOf e.2)).foldl
      (fun total (_, row) => total + SqliteStore.textLength row.payload) a
    let bytes := entries.foldl (fun total (_, entry) => total + entry.payload.utf8ByteSize) b
    characters ≤ bytes ∧
      (characters = bytes ↔ a = b ∧ ∀ held ∈ entries, IsPlainText held.2.payload) := by
  induction entries generalizing a b with
  | nil => simp [hab]
  | cons held entries ih =>
    obtain ⟨hle, hiff⟩ := textLength_le held.2.payload
    obtain ⟨hrest, hrestiff⟩ := ih (show a + SqliteStore.textLength held.2.payload ≤
      b + held.2.payload.utf8ByteSize by omega)
    refine ⟨hrest, hrestiff.trans ?_⟩
    rw [List.forall_mem_cons, ← hiff]
    constructor
    · rintro ⟨hsum, hplain⟩
      exact ⟨by omega, by omega, hplain⟩
    · rintro ⟨rfl, hheld, hplain⟩
      exact ⟨by omega, hplain⟩

theorem SqliteStore.Mirrors.stats {d : SqliteStore} {m : MemoryStore} (h : d.Mirrors m) :
    d.stats.entries = m.stats.entries ∧ d.stats.bytes ≤ m.stats.bytes ∧
      (d.stats.bytes = m.stats.bytes ↔ m.IsPlain) := by
  obtain ⟨hle, hiff⟩ := foldl_textLength_le m.entries.entries (Nat.le_refl 0)
  rw [SqliteStore.stats, h.results]
  exact ⟨NameMap.size_mapValues rowOf m.entries, hle, hiff.trans (by simp [MemoryStore.IsPlain])⟩

/-! ## Answers -/

/-- Answers that agree, except that fewer bytes may be held. -/
def Answer.Agrees : Answer → Answer → Prop
  | .holds m, .holds d => d.entries = m.entries ∧ d.bytes ≤ m.bytes
  | a, b => a = b

theorem Answer.agrees_self (a : Answer) : a.Agrees a := by
  cases a <;> simp [Agrees]

variable {d : SqliteStore} {m : MemoryStore} {call : Call} {calls : List Call}

/-- Both stores answer a call and stay alike. Their answers agree, and they are the same unless the
stores count what they hold and a text is not plain. -/
theorem SqliteStore.Mirrors.perform (h : d.Mirrors m) (hcall : call.Fits) :
    ∃ fromMemory fromDatabase m' d', perform m call = .ok (fromMemory, m') ∧
      perform d call = .ok (fromDatabase, d') ∧ d'.Mirrors m' ∧ fromMemory.Agrees fromDatabase ∧
      (fromMemory = fromDatabase ↔ (call = .stats → m.IsPlain)) := by
  cases call with
  | get key =>
    refine ⟨.found (m.get? key), .found (d.get? key), m, d, rfl, rfl, h, ?_, ?_⟩
    · rw [h.get?]
      exact Answer.agrees_self _
    · simp [h.get?]
  | set key e =>
    exact ⟨.stored, .stored, m.set key e, d.set key e, rfl, rfl, h.set key hcall,
      Answer.agrees_self _, by simp⟩
  | removeExpired key now =>
    obtain ⟨hremoved, hmirrors⟩ := h.removeExpired key hcall
    refine ⟨.removed (m.removeExpired key now).1, .removed (d.removeExpired key now).1, _, _, rfl,
      rfl, hmirrors, ?_, ?_⟩
    · rw [hremoved]
      exact Answer.agrees_self _
    · simp [hremoved]
  | stats =>
    -- the one answer that may differ: the stores count the bytes of a text differently
    obtain ⟨hentries, hle, hiff⟩ := h.stats
    refine ⟨.holds m.stats, .holds d.stats, m, d, rfl, rfl, h, ⟨hentries, hle⟩, ?_⟩
    rw [Answer.holds.injEq, ← hiff]
    constructor
    · exact fun heq _ => congrArg Stats.bytes heq.symm
    · intro hbytes
      have hparts : ∀ a b : Stats, b.entries = a.entries → b.bytes = a.bytes → a = b := by
        rintro ⟨_, _⟩ ⟨_, _⟩ rfl rfl
        rfl
      exact hparts _ _ hentries (hbytes rfl)

/-- Whenever calls count what is held in memory, every text is plain. -/
def PlainWhenCounted (m : MemoryStore) (calls : List Call) : Prop :=
  ∀ before after answers m', calls = before ++ .stats :: after →
    performAll m before = .ok (answers, m') → m'.IsPlain

theorem plainWhenCounted_cons {answer : Answer} {m' : MemoryStore}
    (h : perform m call = .ok (answer, m')) :
    PlainWhenCounted m (call :: calls) ↔
      (call = .stats → m.IsPlain) ∧ PlainWhenCounted m' calls := by
  constructor
  · refine fun hplain => ⟨?_, fun before after answers m'' hcalls hbefore => ?_⟩
    · rintro rfl
      exact hplain [] calls [] m rfl rfl
    · refine hplain (call :: before) after (answer :: answers) m'' (congrArg (call :: ·) hcalls) ?_
      exact bind_eq_ok.2 ⟨_, h, bind_eq_ok.2 ⟨_, hbefore, rfl⟩⟩
  · rintro ⟨hnow, hlater⟩ before after answers m'' hcalls hbefore
    rcases before with _ | ⟨first, before⟩
    · obtain ⟨rfl, -⟩ := List.cons.inj hcalls
      obtain ⟨-, rfl⟩ := Prod.mk.inj (Except.ok.inj hbefore)
      exact hnow rfl
    · obtain ⟨rfl, htail⟩ := List.cons.inj hcalls
      obtain ⟨⟨_, _⟩, hfirst, hrest⟩ := bind_eq_ok.1 hbefore
      obtain ⟨rfl, rfl⟩ := Prod.mk.inj (Except.ok.inj (h.symm.trans hfirst))
      obtain ⟨⟨_, _⟩, hmore, hanswers⟩ := bind_eq_ok.1 hrest
      obtain ⟨-, rfl⟩ := Prod.mk.inj (Except.ok.inj hanswers)
      exact hlater before after _ _ htail hmore

/-- Stores that are alike answer any calls alike. -/
theorem SqliteStore.Mirrors.performAll (h : d.Mirrors m) (hcalls : ∀ call ∈ calls, call.Fits) :
    ∃ fromMemory fromDatabase m' d', performAll m calls = .ok (fromMemory, m') ∧
      performAll d calls = .ok (fromDatabase, d') ∧ d'.Mirrors m' ∧
      List.Forall₂ Answer.Agrees fromMemory fromDatabase ∧
      (fromMemory = fromDatabase ↔ PlainWhenCounted m calls) := by
  induction calls generalizing m d with
  | nil =>
    refine ⟨[], [], m, d, rfl, rfl, h, .nil, fun _ => ?_, fun _ => rfl⟩
    intro before after _ _ hnil
    exact absurd hnil (by simp)
  | cons call calls ih =>
    obtain ⟨hcall, hcalls⟩ := List.forall_mem_cons.1 hcalls
    obtain ⟨a, b, m₁, d₁, ham, hbd, hfirst, hagrees, hsame⟩ := h.perform hcall
    obtain ⟨as, bs, m', d', hasm, hbsd, hmirrors, hrest, hrestsame⟩ := ih hfirst hcalls
    refine ⟨a :: as, b :: bs, m', d', ?_, ?_, hmirrors, .cons hagrees hrest, ?_⟩
    · exact bind_eq_ok.2 ⟨_, ham, bind_eq_ok.2 ⟨_, hasm, rfl⟩⟩
    · exact bind_eq_ok.2 ⟨_, hbd, bind_eq_ok.2 ⟨_, hbsd, rfl⟩⟩
    · rw [plainWhenCounted_cons ham, List.cons.injEq, hsame, hrestsame]

/-- New stores in memory and in a database answer any calls alike whose times fit 63 bits. Both tell
the same number of entries, and the database never more bytes. All answers are the same just when
every text is plain that is held while the stores count. -/
theorem performAll_interchange (hcalls : ∀ call ∈ calls, call.Fits) :
    ∃ fromMemory fromDatabase memory database,
      performAll MemoryStore.empty calls = .ok (fromMemory, memory) ∧
      performAll SqliteStore.empty calls = .ok (fromDatabase, database) ∧
      List.Forall₂ Answer.Agrees fromMemory fromDatabase ∧
      (fromMemory = fromDatabase ↔ PlainWhenCounted .empty calls) := by
  obtain ⟨fromMemory, fromDatabase, memory, database, hmemory, hdatabase, -, hagrees, hsame⟩ :=
    SqliteStore.mirrors_empty.performAll hcalls
  exact ⟨fromMemory, fromDatabase, memory, database, hmemory, hdatabase, hagrees, hsame⟩

/-- Calls that store, find, count and remove entries, one of them from the future. -/
def sampleCalls : List Call :=
  [.set "k" ⟨"[1]", 1000, 500⟩, .set "later" ⟨"null", 9000, 0⟩, .removeExpired "k" 1500,
    .removeExpired "later" 1500, .stats, .removeExpired "k" 1501, .get "k", .get "later"]

theorem performAll_interchange_sample : (∀ call ∈ sampleCalls, call.Fits) ∧
    ∃ answers memory database,
      performAll MemoryStore.empty sampleCalls = .ok (answers, memory) ∧
      performAll SqliteStore.empty sampleCalls = .ok (answers, database) ∧
      PlainWhenCounted .empty sampleCalls := by
  have hcalls : ∀ call ∈ sampleCalls, call.Fits := by decide
  obtain ⟨fromMemory, fromDatabase, memory, database, hmemory, hdatabase, -, hsame⟩ :=
    performAll_interchange hcalls
  have hanswers : ((performAll MemoryStore.empty sampleCalls).map (·.1)).toOption =
      ((performAll SqliteStore.empty sampleCalls).map (·.1)).toOption := by
    decide +kernel
  rw [hmemory, hdatabase] at hanswers
  obtain rfl : fromMemory = fromDatabase := Option.some.inj hanswers
  exact ⟨hcalls, fromMemory, memory, database, hmemory, hdatabase, hsame.1 rfl⟩

/-- One letter that takes two bytes. -/
def accentedCalls : List Call :=
  [.set "k" ⟨"é", 0, 1000⟩, .stats]

/-- It counts twice in memory and once in a database. -/
theorem performAll_accentedCalls :
    ((performAll MemoryStore.empty accentedCalls).map (·.1)).toOption =
        some [.stored, .holds ⟨1, 2⟩] ∧
      ((performAll SqliteStore.empty accentedCalls).map (·.1)).toOption =
        some [.stored, .holds ⟨1, 1⟩] := by
  decide +kernel

end ReportSql.Cache
