import ReportSql.Compile.Filters
import ReportSql.Proofs.NameMap

/-!
# Names not in use

The search for a placeholder name goes through numbered forms of one base. A name in
use rules out at most one of these forms, also where a form is to be the base of
numbered slots, so one candidate more than there are names always leaves a free one.

## Main results

* `Compiler.freshName_spec`, `Compiler.freshListName_spec` - the search ends at the first name
  that is free
-/

namespace ReportSql.Compiler

/-! ## Numbered names -/

theorem toList_numbered (base : String) (n : Nat) :
    (numbered base n).toList = base.toList ++ '_' :: Nat.toDigits 10 n := by
  simp [numbered]

theorem numbered_inj {base : String} {n k : Nat} : numbered base n = numbered base k ↔ n = k := by
  constructor
  · intro h
    have hdigits := congrArg String.toList h
    rw [toList_numbered, toList_numbered, List.append_cancel_left_eq, List.cons_inj_right] at hdigits
    rw [← Nat.repr_inj, Nat.repr_eq_ofList_toDigits, Nat.repr_eq_ofList_toDigits, hdigits]
  · rintro rfl
    rfl

/-- A slot tells which numbered form of the base it belongs to. -/
theorem numbered_numbered_inj {base : String} {n k i j : Nat}
    (h : numbered (numbered base n) i = numbered (numbered base k) j) : n = k := by
  have hdigits := congrArg String.toList h
  simp only [toList_numbered, List.append_assoc, List.cons_append, List.append_cancel_left_eq,
    List.cons_inj_right] at hdigits
  rw [List.append_cons_inj_of_notMem Nat.underscore_not_in_toDigits
    Nat.underscore_not_in_toDigits] at hdigits
  rw [← Nat.repr_inj, Nat.repr_eq_ofList_toDigits, Nat.repr_eq_ofList_toDigits, hdigits.1]

/-- A name made from a base by numbering it, any number of times. -/
inductive Derived (base : String) : String → Prop where
  | base : Derived base base
  | numbered {name : String} (h : Derived base name) (n : Nat) : Derived base (numbered name n)

/-! ## The search -/

/-- The first form of a base that passes a test: the base itself, or a numbered form where the base
and the numbered forms before it do not pass. -/
inductive FirstFree (base : String) (free : String → Bool) : String → Prop where
  | base (h : free base = true) : FirstFree base free base
  | numbered (n : Nat) (h : free (numbered base (n + 2)) = true) (hbase : free base = false)
      (hbefore : ∀ k < n, free (Compiler.numbered base (k + 2)) = false) :
      FirstFree base free (numbered base (n + 2))

theorem FirstFree.passes {base name : String} {free : String → Bool}
    (h : FirstFree base free name) : free name = true := by
  cases h with
  | base h => exact h
  | numbered n h => exact h

theorem FirstFree.derived {base name : String} {free : String → Bool} (h : FirstFree base free name) :
    Derived base name := by
  cases h with
  | base => exact .base
  | numbered n => exact .numbered .base (n + 2)

theorem firstFree_spec {base : String} {attempts : Nat} {free : String → Bool}
    (h : ∃ n < attempts, free (numbered base (n + 2)) = true) :
    FirstFree base free (firstFree base attempts free) := by
  unfold firstFree
  split
  case isTrue hbase => exact .base hbase
  case isFalse hbase =>
    obtain ⟨n, hn, hfree⟩ := h
    rw [List.find?_map]
    cases hfind : (List.range attempts).find? (free ∘ fun n => numbered base (n + 2)) with
    | none =>
      exact absurd hfree (List.find?_eq_none.1 hfind n (List.mem_range.2 hn))
    | some first =>
      obtain ⟨hfirst, -, hbefore⟩ := List.find?_range_eq_some.1 hfind
      exact .numbered first hfirst (Bool.eq_false_iff.2 hbase)
        fun k hk => by simpa using hbefore k hk

/-- A map with fewer names than there are candidates leaves one of them free, if no name rules out
two candidates. -/
theorem exists_candidate (bound : Params) (Blocks : Nat → String → Prop)
    (hblocks : ∀ {n k name}, Blocks n name → Blocks k name → n = k) :
    ∃ n < bound.size + 1, ∀ name ∈ bound.names, ¬ Blocks n name := by
  by_contra! hall
  choose! blocker hmem hblocker using hall
  have hcard : (Finset.range (bound.size + 1)).card ≤ bound.names.toFinset.card := by
    refine Finset.card_le_card_of_injOn blocker (fun n hn => ?_) (fun n hn k hk heq => ?_)
    · rw [Finset.mem_coe, List.mem_toFinset]
      exact hmem n (Finset.mem_range.1 hn)
    · have hk := hblocker k (Finset.mem_range.1 hk)
      exact hblocks (hblocker n (Finset.mem_range.1 hn)) (heq ▸ hk)
  have hnames := List.toFinset_card_le bound.names
  rw [NameMap.length_names] at hnames
  rw [Finset.card_range] at hcard
  omega

theorem not_contains_iff {bound : Params} {name : String} :
    (!bound.contains name) = true ↔ name ∉ bound.names := by
  rw [Bool.not_eq_true', ← NameMap.contains_iff, Bool.not_eq_true]

theorem freshName_spec (base : String) (bound : Params) :
    FirstFree base (fun name => !bound.contains name) (freshName base bound) := by
  refine firstFree_spec ?_
  obtain ⟨n, hn, hfree⟩ := exists_candidate bound
    (fun n name => name = numbered base (n + 2)) fun {n k name} hn hk => by
      have h := numbered_inj.1 (hn.symm.trans hk)
      omega
  exact ⟨n, hn, not_contains_iff.2 fun hmem => hfree _ hmem rfl⟩

theorem freshListName_spec (base : String) (count : Nat) (bound : Params) :
    FirstFree base
      (fun name => (List.range count).all fun i => !bound.contains (numbered name i))
      (freshListName base count bound) := by
  refine firstFree_spec ?_
  obtain ⟨n, hn, hfree⟩ := exists_candidate bound
    (fun n name => ∃ i, name = numbered (numbered base (n + 2)) i) fun {n k name} hn hk => by
      obtain ⟨i, hi⟩ := hn
      obtain ⟨j, hj⟩ := hk
      have h := numbered_numbered_inj (hi.symm.trans hj)
      omega
  refine ⟨n, hn, List.all_eq_true.2 fun i _ => ?_⟩
  exact not_contains_iff.2 fun hmem => hfree _ hmem ⟨i, rfl⟩

theorem freshName_notMem (base : String) (bound : Params) : freshName base bound ∉ bound.names :=
  not_contains_iff.1 (freshName_spec base bound).passes

theorem slot_notMem {base : String} {count : Nat} {bound : Params} {i : Nat} (hi : i < count) :
    numbered (freshListName base count bound) i ∉ bound.names :=
  not_contains_iff.1
    (List.all_eq_true.1 (freshListName_spec base count bound).passes i (List.mem_range.2 hi))

end ReportSql.Compiler
