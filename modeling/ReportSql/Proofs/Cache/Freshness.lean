import ReportSql.Proofs.Cache.Lawful
import ReportSql.Proofs.Json.ReadBack

/-!
# Time to live

A cache over a store in memory is used at times that never go back: values are kept, and values are
looked up. A look-up finds what was last kept under its key, as long as no more time has passed
than it may be used for. Expired entries leave the store only when they are read, which is too late
to matter: an entry that was expired once stays expired. What is found is read back from its JSON
text, so it is the value that was kept where that value is legible.

## Main definitions

* `Cache.Use` - a value kept under a key, or a look-up
* `Cache.lastKept?` - what was last kept under a key
* `Cache.Holds` - the store holds what was last kept under a key, unless it is expired

## Main results

* `Cache.holds_afterUses` - every use keeps the store so, under every key
* `Cache.fetch_afterUses` - what a look-up finds after any uses
-/

namespace ReportSql.Cache

/-! ## Uses of a cache -/

/-- A time span in milliseconds as a word; one that does not fit becomes the greatest word. -/
def spanWord (milliseconds : Nat) : UInt64 :=
  UInt64.ofNat (min milliseconds (Nat.pow 2 64 - 1))

/-- A time to live that is given in seconds becomes such a word. -/
theorem millisecondsOf_eq_spanWord (seconds : UInt64) :
    millisecondsOf seconds = spanWord (seconds.toNat * 1000) :=
  rfl

theorem toNat_spanWord (milliseconds : Nat) :
    (spanWord milliseconds).toNat = min milliseconds (2 ^ 64 - 1) := by
  have hpow : Nat.pow 2 64 = 2 ^ 64 := rfl
  rw [spanWord, UInt64.toNat_ofNat', hpow]
  omega

/-- What was kept: a value, for how many milliseconds, and since when. -/
structure Kept where
  value : Json
  ttl : Nat
  since : UInt64

namespace Kept

/-- The entry of the store. -/
def entry (k : Kept) : Entry :=
  entryFor k.value (spanWord k.ttl) k.since

/-- No more time has passed than the value may be used for. -/
def Fresh (k : Kept) (now : UInt64) : Prop :=
  now.toNat - k.since.toNat ≤ k.ttl

instance (k : Kept) (now : UInt64) : Decidable (k.Fresh now) :=
  inferInstanceAs (Decidable (_ ≤ _))

/-- An entry is expired just when it is not fresh, also where a time span was cut off. -/
theorem isExpired_entry (k : Kept) (now : UInt64) :
    k.entry.isExpired now = true ↔ ¬ k.Fresh now := by
  have hnow := now.toNat_lt
  rw [Entry.isExpired, decide_eq_true_iff, UInt64.lt_iff_toNat_lt, toNat_saturatingSub, Fresh]
  show (spanWord k.ttl).toNat < now.toNat - k.since.toNat ↔ _
  rw [toNat_spanWord]
  omega

/-- What is fresh at a time was fresh before. -/
theorem Fresh.of_le {k : Kept} {earlier now : UInt64} (h : k.Fresh now) (hle : earlier ≤ now) :
    k.Fresh earlier := by
  have hle := UInt64.le_iff_toNat_le.1 hle
  unfold Fresh at *
  omega

end Kept

/-- A use of a cache: a value is kept under a key, or looked up. -/
inductive Use where
  | keep (key : String) (value : Json) (ttl : Nat) (now : UInt64)
  | lookUp (key : String) (now : UInt64)

namespace Use

/-- The time of a use. -/
def time : Use → UInt64
  | keep _ _ _ now => now
  | lookUp _ now => now

/-- What a use keeps under a key. -/
def kept? (key : String) : Use → Option Kept
  | keep k value ttl now => if k = key then some ⟨value, ttl, now⟩ else none
  | lookUp _ _ => none

/-- The store after a use. -/
def step (s : MemoryStore) : Use → MemoryStore
  | keep key value ttl now => (put s key value (spanWord ttl) now).toOption.getD s
  | lookUp key now => (fetch some s key now).2

end Use

/-- The store after some uses of a new cache. -/
def afterUses (uses : List Use) : MemoryStore :=
  uses.foldl Use.step .empty

/-- What was last kept under a key. -/
def lastKept? (uses : List Use) (key : String) : Option Kept :=
  (uses.filterMap (Use.kept? key)).getLast?

theorem lastKept?_concat (uses : List Use) (use : Use) (key : String) :
    lastKept? (uses ++ [use]) key = (use.kept? key).or (lastKept? uses key) := by
  unfold lastKept?
  rw [List.filterMap_append]
  cases h : use.kept? key <;> simp [h]

/-! ## The store after a use -/

variable {s : MemoryStore} {uses : List Use} {key : String}

/-- A look-up in memory finds what is not expired, and removes what is. -/
theorem fetch_memory {α : Type} (read? : Json → Option α) (s : MemoryStore) (key : String)
    (now : UInt64) : fetch read? s key now =
      match s.get? key with
      | none => (.ok none, s)
      | some e =>
        if e.isExpired now then (.ok none, ⟨s.entries.erase key⟩)
        else ((decode read? e.payload).map some, s) := by
  have hget : Store.get s key = .ok (s.get? key) := rfl
  unfold fetch
  rw [hget]
  cases hentry : s.get? key with
  | none => rfl
  | some e =>
    dsimp only
    split
    · rename_i hexpired
      have hremoved : evict s key now = ⟨s.entries.erase key⟩ := by
        show (s.removeExpired key now).2 = _
        rw [MemoryStore.removeExpired, MemoryStore.holdsExpired, hentry, Option.any_some, hexpired]
        rfl
      rw [hremoved]
    · rfl

theorem get?_step_keep (s : MemoryStore) (k : String) (value : Json) (ttl : Nat) (now : UInt64)
    (key : String) : ((Use.keep k value ttl now).step s).get? key =
      if key = k then some (Kept.entry ⟨value, ttl, now⟩) else s.get? key :=
  NameMap.get?_insert s.entries k _ key

/-- A look-up removes the entry under its key if that is expired, and no other one. -/
theorem get?_step_lookUp (s : MemoryStore) (k : String) (now : UInt64) (key : String) :
    ((Use.lookUp k now).step s).get? key =
      if key = k then (s.get? key).filter fun e => !e.isExpired now else s.get? key := by
  rw [Use.step, fetch_memory]
  have herased : (⟨s.entries.erase k⟩ : MemoryStore).get? key =
      if key = k then none else s.get? key :=
    NameMap.get?_erase s.entries k key
  by_cases hkey : key = k
  · subst hkey
    rw [if_pos rfl] at herased ⊢
    cases hentry : s.get? key with
    | none => exact hentry
    | some e =>
      dsimp only
      split
      · rename_i hexpired
        rw [herased, Option.filter_some, hexpired]
        rfl
      · rename_i hexpired
        rw [hentry, Option.filter_some, Bool.eq_false_iff.2 hexpired]
        rfl
  · -- what is erased has another key
    rw [if_neg hkey] at herased ⊢
    cases s.get? k with
    | none => rfl
    | some e =>
      dsimp only
      split
      · exact herased
      · rfl

/-! ## Runs -/

/-- The store holds what was last kept under a key, unless that was expired at the time of a use. -/
def Holds (s : MemoryStore) (uses : List Use) (key : String) : Prop :=
  s.get? key = (lastKept? uses key).map Kept.entry ∨
    s.get? key = none ∧ ∃ k, lastKept? uses key = some k ∧ ∃ use ∈ uses, ¬ k.Fresh use.time

theorem Holds.step (h : Holds s uses key) (use : Use) : Holds (use.step s) (uses ++ [use]) key := by
  unfold Holds at *
  rw [lastKept?_concat]
  cases use with
  | keep k value ttl now =>
    rw [get?_step_keep]
    by_cases hkey : key = k
    · left
      rw [if_pos hkey, Use.kept?, if_pos hkey.symm]
      rfl
    · -- under another key nothing changes, and the use that found an entry expired is still there
      rw [if_neg hkey, Use.kept?, if_neg (Ne.symm hkey), Option.none_or]
      refine h.imp_right fun ⟨hnone, last, hlast, use, huse, hfresh⟩ => ?_
      exact ⟨hnone, last, hlast, use, List.mem_append_left _ huse, hfresh⟩
  | lookUp k now =>
    rw [get?_step_lookUp, Use.kept?, Option.none_or]
    rcases h with hholds | ⟨hnone, last, hlast, use, huse, hfresh⟩
    · by_cases hkey : key = k
      · rw [if_pos hkey, hholds]
        cases hlast : lastKept? uses key with
        | none => exact .inl rfl
        | some last =>
          by_cases hfresh : last.Fresh now
          · left
            have hkept : last.entry.isExpired now = false := by
              rw [Bool.eq_false_iff, Ne, last.isExpired_entry now, not_not]
              exact hfresh
            simp [hkept]
          · -- the look-up removes the entry, and the time of the look-up tells why
            refine .inr ⟨?_, last, rfl, .lookUp k now, by simp, hfresh⟩
            simp [(last.isExpired_entry now).2 hfresh]
      · rw [if_neg hkey]
        exact .inl hholds
    · refine .inr ⟨?_, last, hlast, use, List.mem_append_left _ huse, hfresh⟩
      rw [hnone]
      split <;> rfl

/-- Under every key, every use keeps the store so. -/
theorem holds_afterUses (uses : List Use) (key : String) : Holds (afterUses uses) uses key := by
  induction uses using List.reverseRecOn with
  | nil => exact .inl rfl
  | append_singleton uses use ih =>
    have hstep := ih.step use
    rwa [afterUses, List.foldl_append]

/-- What is fresh at a time that is no earlier than any use is still in the store. -/
theorem get?_of_fresh {now : UInt64} (hnow : ∀ use ∈ uses, use.time ≤ now) {k : Kept}
    (hlast : lastKept? uses key = some k) (hfresh : k.Fresh now) :
    (afterUses uses).get? key = some k.entry := by
  rcases holds_afterUses uses key with hholds | ⟨-, last, hsome, use, huse, hexpired⟩
  · rw [hholds, hlast]
    rfl
  · -- it would have been expired at the time of an earlier use, and time never goes back
    obtain rfl := Option.some.inj (hlast.symm.trans hsome)
    exact absurd (hfresh.of_le (hnow use huse)) hexpired

/-- What is found in the store was last kept. -/
theorem lastKept?_of_get? {e : Entry} (h : (afterUses uses).get? key = some e) :
    ∃ k, lastKept? uses key = some k ∧ e = k.entry := by
  rcases holds_afterUses uses key with hholds | ⟨hnone, -⟩
  · rw [hholds] at h
    obtain ⟨k, hlast, rfl⟩ := Option.map_eq_some_iff.1 h
    exact ⟨k, hlast, rfl⟩
  · rw [hnone] at h
    exact absurd h (Option.some_ne_none e).symm

/-- A legible value is found again as it was kept. -/
theorem decode_compact {α : Type} {read? : Json → Option α} {value : Json} {a : α}
    (h : value.Legible Json.greatestDepth) (ha : read? value = some a) :
    decode read? value.compact = .ok a := by
  rw [decode, Json.parse?_compact h, Option.bind_some, ha]

/-- A look-up reads back the text of what was last kept under its key, as long as that is fresh. -/
theorem fetch_fst {now : UInt64} (hnow : ∀ use ∈ uses, use.time ≤ now) (key : String) {α : Type}
    (read? : Json → Option α) : (fetch read? (afterUses uses) key now).1 =
      match lastKept? uses key with
      | none => .ok none
      | some k => if k.Fresh now then (decode read? k.value.compact).map some else .ok none := by
  rw [fetch_memory]
  cases hlast : lastKept? uses key with
  | none =>
    cases hentry : (afterUses uses).get? key with
    | none => rfl
    | some e =>
      obtain ⟨k, hsome, -⟩ := lastKept?_of_get? hentry
      exact absurd (hsome.symm.trans hlast) (Option.some_ne_none k)
  | some k =>
    dsimp only
    by_cases hfresh : k.Fresh now
    · have hkept : ¬ k.entry.isExpired now = true := by
        rwa [k.isExpired_entry now, not_not]
      rw [get?_of_fresh hnow hlast hfresh, if_pos hfresh]
      exact congrArg Prod.fst (if_neg hkept)
    · rw [if_neg hfresh]
      cases hentry : (afterUses uses).get? key with
      | none => rfl
      | some e =>
        obtain ⟨last, hsome, rfl⟩ := lastKept?_of_get? hentry
        obtain rfl := Option.some.inj (hlast.symm.trans hsome)
        exact congrArg Prod.fst (if_pos ((k.isExpired_entry now).2 hfresh))

/-- What a look-up finds after any uses, none of them later. It reads back the text of the value
that was last kept under its key, as long as that is fresh, and finds nothing otherwise. What is
fresh is never removed from the store, and it is found as it was kept just when its text is read
back, as that of a legible value is. -/
theorem fetch_afterUses {uses : List Use} {now : UInt64} (hnow : ∀ use ∈ uses, use.time ≤ now)
    (key : String) {α : Type} (read? : Json → Option α) :
    (fetch read? (afterUses uses) key now).1 =
        (match lastKept? uses key with
          | none => .ok none
          | some k =>
            if k.Fresh now then (decode read? k.value.compact).map some else .ok none) ∧
      ∀ k, lastKept? uses key = some k → k.Fresh now →
        (afterUses uses).get? key = some k.entry ∧
        ((fetch some (afterUses uses) key now).1 = .ok (some k.value) ↔
          Json.parse? k.value.compact = some k.value) ∧
        (k.value.Legible Json.greatestDepth → ∀ a, read? k.value = some a →
          (fetch read? (afterUses uses) key now).1 = .ok (some a)) := by
  refine ⟨fetch_fst hnow key read?, fun k hlast hfresh =>
    ⟨get?_of_fresh hnow hlast hfresh, ?_, fun hlegible a ha => ?_⟩⟩
  · rw [fetch_fst hnow, hlast]
    dsimp only
    rw [if_pos hfresh, decode]
    cases hparse : Json.parse? k.value.compact with
    | none => simp [Except.map]
    | some value => simp [Except.map]
  · rw [fetch_fst hnow, hlast]
    dsimp only
    rw [if_pos hfresh, decode_compact hlegible ha]
    rfl

/-- A value that is renewed while another key is in use, for a second each. -/
def renewals : List Use :=
  [.keep "k" (.string "old") 1000 500, .keep "k" (.array [.integer 7, .string "new"]) 1000 1500,
    .keep "other" .null 0 1600, .lookUp "other" 1700]

theorem fetch_afterUses_renewals : (∀ use ∈ renewals, use.time ≤ 2500) ∧
    (fetch some (afterUses renewals) "k" 2500).1 = .ok (some (.array [.integer 7, .string "new"])) ∧
    (fetch some (afterUses renewals) "k" 2501).1 = .ok none := by
  have hnow : ∀ use ∈ renewals, use.time ≤ 2500 := by decide
  have hlater : ∀ use ∈ renewals, use.time ≤ 2501 := by decide
  have hlast : lastKept? renewals "k" = some ⟨.array [.integer 7, .string "new"], 1000, 1500⟩ := rfl
  have hlegible : Json.Legible Json.greatestDepth (.array [.integer 7, .string "new"]) := by
    refine .array (List.forall_mem_cons.2 ⟨.integer _ (by decide) (by decide), ?_⟩)
    exact List.forall_mem_singleton.2 (.string _ _)
  obtain ⟨-, hfound⟩ := fetch_afterUses hnow "k" some
  obtain ⟨-, -, hvalue⟩ := hfound _ hlast (by decide)
  obtain ⟨hmissed, -⟩ := fetch_afterUses hlater "k" some
  exact ⟨hnow, hvalue hlegible _ rfl, hmissed.trans rfl⟩

/-- A number whose text is read as its neighbour. -/
def driftingNumber : Binary64 :=
  ⟨false, 6658414782310184, -76, ⟨by decide, by decide, by decide, .inr (by decide)⟩⟩

/-- Its neighbour. -/
def driftedNumber : Binary64 :=
  ⟨false, 6658414782310185, -76, ⟨by decide, by decide, by decide, .inr (by decide)⟩⟩

/-- The neighbour is found as soon as the number is kept. -/
theorem fetch_driftingNumber : driftedNumber ≠ driftingNumber ∧
    (fetch some (afterUses [.keep "k" (.real driftingNumber) 60000 0]) "k" 0).1 =
      .ok (some (.real driftedNumber)) := by
  have hparse : Json.parse? (Json.real driftingNumber).compact = some (.real driftedNumber) := by
    decide +kernel
  have hlast : lastKept? [.keep "k" (.real driftingNumber) 60000 0] "k" =
      some ⟨.real driftingNumber, 60000, 0⟩ := rfl
  refine ⟨by decide, ?_⟩
  rw [fetch_fst (by decide), hlast]
  dsimp only
  rw [if_pos (by decide), decode, hparse]
  rfl

end ReportSql.Cache
