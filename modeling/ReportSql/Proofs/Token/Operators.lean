import ReportSql.Proofs.Token.Readers

/-!
# The operator table

The table of operators is searched from its top, which finds the longest operator
at the head of a text: an operator comes before its own beginnings, and whatever
continues an operator to a longer one continues it to another operator at once.
An operator is therefore read back before any text that does not continue it.
-/

namespace ReportSql

namespace Token

/-- The entry of the longest operator at the head of a text. -/
abbrev findOperator? (cs : List Char) : Option (String × Bool) :=
  operators.find? fun entry => entry.1.toList.isPrefixOf cs

private theorem operators_pairwise :
    operators.Pairwise fun a b => ¬ a.1.toList <+: b.1.toList := by
  decide

private theorem operators_extend : ∀ a ∈ operators, ∀ b ∈ operators,
    a.1.toList <+: b.1.toList → a.1.toList.length < b.1.toList.length →
      ∃ e ∈ operators, e.1.toList = b.1.toList.take (a.1.toList.length + 1) := by
  decide

private theorem operators_single : ∀ a ∈ operators, a.1.toList.head? ≠ some ':' →
    ∃ e ∈ operators, e.1.toList = a.1.toList.take 1 := by
  decide

private theorem operators_colon : ∀ a ∈ operators, a.1.toList.head? = some ':' →
    a = ("::", false) ∨ a = (":=", false) := by
  decide

theorem operators_nonempty : ∀ a ∈ operators, a.1.toList ≠ [] := by
  decide

/-- A text that does not make an operator longer. -/
def Unextended (text : String) (next : List Char) : Prop :=
  ∀ c ∈ next.head?, text.push c ∉ operators.map (·.1)

theorem findOperator?_isPrefix {entry : String × Bool} {cs : List Char}
    (h : findOperator? cs = some entry) : entry ∈ operators ∧ entry.1.toList <+: cs := by
  have hprefix := List.find?_some h
  exact ⟨List.mem_of_find?_eq_some h, List.isPrefixOf_iff_prefix.1 hprefix⟩

private theorem findOperator?_eq_some {entry : String × Bool} {cs : List Char} :
    findOperator? cs = some entry ↔ entry.1.toList <+: cs ∧
      ∃ before after, operators = before ++ entry :: after ∧
        ∀ e ∈ before, ¬ e.1.toList <+: cs := by
  simp [findOperator?, List.find?_eq_some_iff_append, ← List.isPrefixOf_iff_prefix]

theorem findOperator?_append {text : String} {continues : Bool} {next : List Char}
    (h : (text, continues) ∈ operators) :
    findOperator? (text.toList ++ next) = some (text, continues) ↔ Unextended text next := by
  rw [findOperator?_eq_some]
  constructor
  · rintro ⟨-, before, after, hops, hbefore⟩ c hc hmem
    obtain ⟨entry, hentry, hpush⟩ := List.mem_map.1 hmem
    obtain ⟨next, rfl⟩ := List.head?_eq_some_iff.1 hc
    have htext : entry.1.toList = text.toList ++ [c] := by rw [hpush, String.toList_push]
    rw [hops] at hentry
    rcases List.mem_append.1 hentry with hentry | hentry
    · exact hbefore entry hentry (by simp [htext])
    · rcases List.mem_cons.1 hentry with rfl | hentry
      · simp at htext
      · have hpairs := operators_pairwise
        rw [hops] at hpairs
        refine List.rel_of_pairwise_cons (List.pairwise_append.1 hpairs).2.1 hentry ?_
        simp [htext]
  · intro hnext
    obtain ⟨before, after, hops⟩ := List.append_of_mem h
    refine ⟨List.prefix_append _ _, before, after, hops, fun entry hentry hprefix => ?_⟩
    have hmem : entry ∈ operators := by rw [hops]; exact List.mem_append_left _ hentry
    have hpairs := operators_pairwise
    rw [hops] at hpairs
    have hnot := (List.pairwise_append.1 hpairs).2.2 entry hentry _ List.mem_cons_self
    rcases Nat.lt_or_ge text.toList.length entry.1.toList.length with hlt | hge
    · -- the entry goes on after the text, so its first further character does
      have htext : text.toList <+: entry.1.toList :=
        List.prefix_of_prefix_length_le (List.prefix_append _ _) hprefix hlt.le
      obtain ⟨e, he, hetext⟩ := operators_extend _ h entry hmem htext hlt
      obtain ⟨more, hmore⟩ := htext
      rw [← hmore, List.prefix_append_right_inj] at hprefix
      cases more with
      | nil => simp [← hmore] at hlt
      | cons c more =>
        obtain ⟨tail, rfl⟩ := hprefix
        refine hnext c (by simp) (List.mem_map.2 ⟨e, he, String.toList_injective ?_⟩)
        rw [hetext, ← hmore, String.toList_push, List.take_length_add_append]
        simp
    · exact hnot (List.prefix_of_prefix_length_le hprefix (List.prefix_append _ _) hge)

theorem findOperator?_eq_none {c : Char} (h : ∀ e ∈ operators, e.1.toList.head? ≠ some c)
    (rest : List Char) : findOperator? (c :: rest) = none := by
  refine List.find?_eq_none.2 fun entry hentry hprefix => ?_
  obtain ⟨tail, htail⟩ := List.isPrefixOf_iff_prefix.1 hprefix
  cases htext : entry.1.toList with
  | nil => exact operators_nonempty entry hentry htext
  | cons a text =>
    rw [htext] at htail
    refine h entry hentry ?_
    rw [htext, ← (List.cons.inj htail).1]
    rfl

/-- What starts no operator starts none before another text, the colon apart. -/
theorem findOperator?_none_change {c : Char} {rest : List Char} (hc : c ≠ ':')
    (h : findOperator? (c :: rest) = none) (next : List Char) : findOperator? (c :: next) = none := by
  refine findOperator?_eq_none (fun entry hentry hhead => ?_) next
  obtain ⟨text, htext⟩ := List.head?_eq_some_iff.1 hhead
  obtain ⟨e, he, hetext⟩ := operators_single entry hentry (by simpa [htext] using hc)
  refine List.find?_eq_none.1 h e he ?_
  simp [hetext, htext]

theorem findOperator?_colon {next : List Char} :
    findOperator? (':' :: next) = none ↔ ∀ c ∈ next.head?, c ≠ ':' ∧ c ≠ '=' := by
  constructor
  · intro h c hc
    obtain ⟨next, rfl⟩ := List.head?_eq_some_iff.1 hc
    refine ⟨?_, ?_⟩
    · rintro rfl
      exact List.find?_eq_none.1 h ("::", false) (by decide) rfl
    · rintro rfl
      exact List.find?_eq_none.1 h (":=", false) (by decide) rfl
  · intro h
    refine List.find?_eq_none.2 fun entry hentry hprefix => ?_
    obtain ⟨tail, htail⟩ := List.isPrefixOf_iff_prefix.1 hprefix
    have hhead : entry.1.toList.head? = some ':' := by
      cases htext : entry.1.toList with
      | nil => exact absurd htext (operators_nonempty entry hentry)
      | cons a text =>
        rw [htext] at htail
        rw [List.head?_cons, (List.cons.inj htail).1]
    rcases operators_colon entry hentry hhead with rfl | rfl
    · obtain rfl : ':' :: tail = next := (List.cons.inj htail).2
      exact (h ':' rfl).1 rfl
    · obtain rfl : '=' :: tail = next := (List.cons.inj htail).2
      exact (h '=' rfl).2 rfl

end Token

end ReportSql
