import Mathlib

/-!
# Computations that may fail

A sequence of computations succeeds exactly when each of them does, and what they
give is collected in order. Two computations are compared by what they come to: the
same error, or results in some relation. What a computation comes to is decided by running it.

## Main definitions

* `SameOutcome` - the same error or related results
* `decidableExistsOk` - a result with a property is found by running the computation
-/

namespace ReportSql

variable {ε α β γ δ : Type}

theorem bind_eq_ok {x : Except ε α} {f : α → Except ε β} {b : β} :
    x >>= f = .ok b ↔ ∃ a, x = .ok a ∧ f a = .ok b := by
  cases x with
  | error e => simp [bind, Except.bind]
  | ok a => simp [bind, Except.bind]

theorem map_eq_ok {x : Except ε α} {f : α → β} {b : β} :
    x.map f = .ok b ↔ ∃ a, x = .ok a ∧ f a = b := by
  cases x with
  | error e => simp [Except.map]
  | ok a => simp [Except.map]

theorem toOption_eq_some {x : Except ε α} {a : α} : x.toOption = some a ↔ x = .ok a := by
  cases x with
  | error e => simp [Except.toOption]
  | ok a => simp [Except.toOption]

theorem forM_eq_ok {f : α → Except ε Unit} {as : List α} :
    as.forM f = .ok () ↔ ∀ a ∈ as, f a = .ok () := by
  induction as with
  | nil => exact ⟨fun _ a ha => absurd ha List.not_mem_nil, fun _ => rfl⟩
  | cons a as ih =>
    rw [List.forM, bind_eq_ok, List.forall_mem_cons, ← ih]
    exact ⟨fun ⟨⟨⟩, ha, hrest⟩ => ⟨ha, hrest⟩, fun ⟨ha, hrest⟩ => ⟨(), ha, hrest⟩⟩

theorem mapM_eq_ok {f : α → Except ε β} {as : List α} {bs : List β} :
    as.mapM f = .ok bs ↔ List.Forall₂ (fun a b => f a = .ok b) as bs := by
  induction as generalizing bs with
  | nil =>
    rw [List.mapM_nil, List.forall₂_nil_left_iff]
    exact ⟨fun h => (Except.ok.inj h).symm, fun h => h ▸ rfl⟩
  | cons a as ih =>
    rw [List.mapM_cons, List.forall₂_cons_left_iff, bind_eq_ok]
    constructor
    · rintro ⟨b, hb, hrest⟩
      obtain ⟨bs', hbs, hpure⟩ := bind_eq_ok.1 hrest
      exact ⟨b, bs', hb, ih.1 hbs, (Except.ok.inj hpure).symm⟩
    · rintro ⟨b, bs', hb, hbs, rfl⟩
      exact ⟨b, hb, bind_eq_ok.2 ⟨bs', ih.2 hbs, rfl⟩⟩

theorem exists_of_mem_mapM {f : α → Except ε β} {as : List α} {bs : List β}
    (h : as.mapM f = .ok bs) {b : β} (hb : b ∈ bs) : ∃ a ∈ as, f a = .ok b := by
  have hall := mapM_eq_ok.1 h
  induction hall with
  | nil => exact absurd hb List.not_mem_nil
  | cons hfirst hrest ih =>
    rcases List.mem_cons.1 hb with rfl | hb
    · exact ⟨_, List.mem_cons_self, hfirst⟩
    · obtain ⟨a, ha, hfa⟩ := ih (mapM_eq_ok.2 hrest) hb
      exact ⟨a, List.mem_cons_of_mem _ ha, hfa⟩

/-! ## Running a computation -/

/-- The one result that a computation may have is the one to check. -/
instance decidableExistsOk (x : Except ε α) (p : α → Prop) [∀ a, Decidable (p a)] :
    Decidable (∃ a, x = .ok a ∧ p a) :=
  match x with
  | .error _ => .isFalse (by simp)
  | .ok a => decidable_of_iff (p a) (by simp)

instance decidableSucceeds (x : Except ε α) : Decidable (∃ a, x = .ok a) :=
  match x with
  | .error _ => .isFalse (by simp)
  | .ok a => .isTrue ⟨a, rfl⟩

instance decidableForallOk (x : Except ε α) (p : α → Prop) [∀ a, Decidable (p a)] :
    Decidable (∀ a, x = .ok a → p a) :=
  match x with
  | .error _ => .isTrue (by simp)
  | .ok a => decidable_of_iff (p a) (by simp)

/-! ## Two computations -/

/-- Both computations fail with the same error, or both succeed with related results. -/
inductive SameOutcome (R : α → β → Prop) : Except ε α → Except ε β → Prop where
  | error (e : ε) : SameOutcome R (.error e) (.error e)
  | ok {a : α} {b : β} (h : R a b) : SameOutcome R (.ok a) (.ok b)

theorem SameOutcome.refl {R : α → α → Prop} (h : ∀ a, R a a) (x : Except ε α) :
    SameOutcome R x x := by
  cases x with
  | error e => exact .error e
  | ok a => exact .ok (h a)

theorem SameOutcome.bind {R : α → β → Prop} {S : γ → δ → Prop} {x : Except ε α} {y : Except ε β}
    {f : α → Except ε γ} {g : β → Except ε δ} (h : SameOutcome R x y)
    (hnext : ∀ a b, R a b → SameOutcome S (f a) (g b)) : SameOutcome S (x >>= f) (y >>= g) := by
  cases h with
  | error e => exact .error e
  | ok hab => exact hnext _ _ hab

/-- The same first step, and then the same outcome for whatever it gives. -/
theorem SameOutcome.bind_left {S : γ → δ → Prop} (x : Except ε α) {f : α → Except ε γ}
    {g : α → Except ε δ} (hnext : ∀ a, SameOutcome S (f a) (g a)) :
    SameOutcome S (x >>= f) (x >>= g) :=
  (SameOutcome.refl (fun _ => rfl) x).bind fun a b (hab : a = b) => hab ▸ hnext a

end ReportSql
