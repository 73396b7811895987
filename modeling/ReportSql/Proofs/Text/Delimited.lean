import ReportSql.Proofs.Token.Readers

/-!
# Texts that tell where they end

A value is written as a delimited text if the text can be cut off from whatever follows it,
as long as that does not go on with a character of some class. Sequences of delimited texts
are taken apart from the left, with or without commas between them.

## Main definitions

* `Delimited` - a text that tells its value and where it ends
* `commaSeparated` - texts with commas between them

## Main results

* `flatMap_append_inj` - sequences of delimited texts
* `commaSeparated_append_inj` - lists with commas
-/

namespace ReportSql

open Token

variable {α : Type} {write : α → List Char} {p : Char → Bool}

/-- The text of a value tells the value and where it ends, unless it is followed by a character of
a class. -/
def Delimited (p : Char → Bool) (write : α → List Char) (a : α) : Prop :=
  ∀ b r s, Stops p r → Stops p s → write a ++ r = write b ++ s → a = b ∧ r = s

/-- Texts of one class of characters end where a character of another class follows. -/
theorem append_inj_of_stops {as bs r s : List Char} (ha : ∀ c ∈ as, p c = true)
    (hb : ∀ c ∈ bs, p c = true) (hr : Stops p r) (hs : Stops p s) (h : as ++ r = bs ++ s) :
    as = bs ∧ r = s := by
  have htake := congrArg (List.takeWhile p) h
  have hdrop := congrArg (List.dropWhile p) h
  rw [takeWhile_append_stops ha hr, takeWhile_append_stops hb hs] at htake
  rw [dropWhile_append_stops ha hr, dropWhile_append_stops hb hs] at hdrop
  exact ⟨htake, hdrop⟩

/-- A text that is written alone tells its value. -/
theorem injective_of_delimited (h : ∀ a, Delimited p write a) : Function.Injective write := by
  intro a b hab
  have hnil := congrArg (· ++ []) hab
  exact (h a b [] [] (stops_nil p) (stops_nil p) hnil).1

/-- A sequence of delimited texts, each beginning with a character of a class, is taken apart where
no such character follows it. -/
theorem flatMap_append_inj {first : Char → Bool} {as bs : List α} {r s : List Char}
    (hself : ∀ a ∈ as, Delimited p write a)
    (hfirst : ∀ a, ∃ c rest, write a = c :: rest ∧ first c = true)
    (hstops : ∀ c, first c = true → p c = false)
    (hr : Stops first r ∧ Stops p r) (hs : Stops first s ∧ Stops p s)
    (h : as.flatMap write ++ r = bs.flatMap write ++ s) : as = bs ∧ r = s := by
  -- what follows an item is the next item, or what follows them all
  have hnext : ∀ (xs : List α) {t : List Char}, Stops p t → Stops p (xs.flatMap write ++ t) := by
    intro xs t ht
    rcases xs with _ | ⟨x, xs⟩
    · exact ht
    · obtain ⟨c, rest, hc, hmark⟩ := hfirst x
      rw [List.flatMap_cons, hc]
      exact stops_cons.2 (hstops c hmark)
  have hend : ∀ (x : α) (xs : List α) (t : List Char) {u : List Char}, Stops first u →
      u ≠ (x :: xs).flatMap write ++ t := by
    rintro x xs t u hu rfl
    obtain ⟨c, rest, hc, hmark⟩ := hfirst x
    rw [List.flatMap_cons, hc] at hu
    rw [stops_cons.1 hu] at hmark
    exact Bool.noConfusion hmark
  induction as generalizing bs with
  | nil =>
    rcases bs with _ | ⟨b, bs⟩
    · exact ⟨rfl, h⟩
    · exact absurd h (hend b bs s hr.1)
  | cons a as ih =>
    rcases bs with _ | ⟨b, bs⟩
    · exact absurd h.symm (hend a as r hs.1)
    · rw [List.flatMap_cons, List.flatMap_cons, List.append_assoc, List.append_assoc] at h
      obtain ⟨rfl, hrest⟩ := hself a List.mem_cons_self b _ _ (hnext as hr.2) (hnext bs hs.2) h
      obtain ⟨rfl, rfl⟩ := ih (fun x hx => hself x (List.mem_cons_of_mem _ hx)) hrest
      exact ⟨rfl, rfl⟩

/-! ## Lists with commas -/

/-- The texts of a list of values with commas between them. -/
def commaSeparated (write : α → List Char) (as : List α) : List Char :=
  [','].intercalate (as.map write)

theorem commaSeparated_cons (a : α) (as : List α) :
    commaSeparated write (a :: as) = write a ++ as.flatMap fun b => ',' :: write b := by
  induction as generalizing a with
  | nil => simp [commaSeparated]
  | cons b as ih =>
    have hcons : commaSeparated write (a :: b :: as) =
        write a ++ [','] ++ commaSeparated write (b :: as) := List.intercalate_cons_cons
    rw [hcons, ih]
    simp

/-- A list of delimited texts with commas is taken apart at its end, where no comma follows. -/
theorem commaSeparated_append_inj {as bs : List α} {r s : List Char} (hcomma : p ',' = false)
    (hself : ∀ a ∈ as, Delimited p write a)
    (hfirst : ∀ a, ∃ c rest, write a = c :: rest ∧ p c = true)
    (hr : Stops (· == ',') r ∧ Stops p r) (hs : Stops (· == ',') s ∧ Stops p s)
    (h : commaSeparated write as ++ r = commaSeparated write bs ++ s) : as = bs ∧ r = s := by
  -- an item starts with a character with which no rest starts
  have hend : ∀ (x : α) (xs : List α) (t : List Char) {u : List Char}, Stops p u →
      u ≠ commaSeparated write (x :: xs) ++ t := by
    rintro x xs t u hu rfl
    obtain ⟨c, rest, hc, hchar⟩ := hfirst x
    rw [commaSeparated_cons, hc] at hu
    rw [stops_cons.1 hu] at hchar
    exact Bool.noConfusion hchar
  have hitems : ∀ (xs : List α) {t : List Char}, Stops p t →
      Stops p ((xs.flatMap fun x => ',' :: write x) ++ t) := by
    intro xs t ht
    rcases xs with _ | ⟨x, xs⟩
    · exact ht
    · exact stops_cons.2 hcomma
  rcases as with _ | ⟨a, as⟩
  · rcases bs with _ | ⟨b, bs⟩
    · exact ⟨rfl, h⟩
    · exact absurd h (hend b bs s hr.2)
  · rcases bs with _ | ⟨b, bs⟩
    · exact absurd h.symm (hend a as r hs.2)
    · rw [commaSeparated_cons, commaSeparated_cons, List.append_assoc, List.append_assoc] at h
      obtain ⟨rfl, hrest⟩ := hself a List.mem_cons_self b _ _ (hitems as hr.2) (hitems bs hs.2) h
      have hmore : ∀ x ∈ as, Delimited p (fun b => ',' :: write b) x := by
        intro x hx b r s hr hs h
        exact hself x (List.mem_cons_of_mem _ hx) b r s hr hs (List.cons.inj h).2
      have hmark : ∀ x, ∃ c rest, ',' :: write x = c :: rest ∧ (c == ',') = true :=
        fun x => ⟨',', write x, rfl, rfl⟩
      have hstop : ∀ c : Char, (c == ',') = true → p c = false := fun c hc => beq_iff_eq.1 hc ▸ hcomma
      obtain ⟨rfl, rfl⟩ := flatMap_append_inj hmore hmark hstop hr hs hrest
      exact ⟨rfl, rfl⟩

end ReportSql
