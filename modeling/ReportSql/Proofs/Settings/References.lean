import Mathlib
import ReportSql.Proofs.Token.Readers
import ReportSql.Settings.Basic

/-!
# References to the environment

A text is cut from left to right into references to variables and characters that
stand for themselves. A reference is a dollar sign with a name in braces, or with the
longest run of letters, digits and underscores after it; its name is never empty. Every
text has one such cut, and a configured path is the cut with its references replaced,
unless an opening brace stands behind a dollar sign that starts no reference. Such a
brace is taken for the start of a name in any case.

## Main definitions

* `Environment.Part` - a character or a reference
* `Environment.Cut` - a text in parts
* `Environment.replaced` - the text of parts with their references replaced

## Main results

* `Environment.expandPath_replaced` - the paths that are expanded along their cut
-/

namespace ReportSql

namespace Environment

open Token

/-! ## Parts of a text -/

/-- A part of a text: a character that stands for itself, or a reference to a variable with its name in
braces or without. -/
inductive Part where
  | plain (c : Char)
  | braced (name : List Char)
  | bare (name : List Char)
deriving DecidableEq

namespace Part

/-- The characters of a part. -/
def chars : Part → List Char
  | plain c => [c]
  | braced name => '$' :: '\x7b' :: (name ++ ['\x7d'])
  | bare name => '$' :: name

/-- The variable that a part refers to. -/
def name? : Part → Option String
  | plain _ => none
  | braced name | bare name => some (String.ofList name)

/-- The characters that stand for a part once references are replaced. -/
def value (env : Environment) : Part → List Char
  | plain c => [c]
  | braced name | bare name => ((env.lookup (String.ofList name)).getD "").toList

end Part

/-- A text that starts with a reference. -/
inductive Refers : List Char → Prop
  | braced {name rest : List Char} (named : name ≠ []) (inside : '\x7d' ∉ name) :
    Refers ('$' :: '\x7b' :: (name ++ '\x7d' :: rest))
  | bare {c : Char} {rest : List Char} (named : isNameChar c = true) : Refers ('$' :: c :: rest)

/-- A text in parts. A name in braces ends at the first closing brace, and a name without braces only
where no character of a name follows. -/
inductive Cut : List Char → List Part → Prop
  | nil : Cut [] []
  | plain {c : Char} {rest : List Char} {parts : List Part} (single : ¬ Refers (c :: rest))
      (others : Cut rest parts) : Cut (c :: rest) (.plain c :: parts)
  | braced {name rest : List Char} {parts : List Part} (named : name ≠ []) (inside : '\x7d' ∉ name)
      (others : Cut rest parts) : Cut ('$' :: '\x7b' :: (name ++ '\x7d' :: rest)) (.braced name :: parts)
  | bare {name rest : List Char} {parts : List Part} (named : name ≠ [])
      (inside : ∀ c ∈ name, isNameChar c = true) (longest : Stops isNameChar rest)
      (others : Cut rest parts) : Cut ('$' :: (name ++ rest)) (.bare name :: parts)

/-- The first variable among parts that is not set. -/
def missing? (env : Environment) (parts : List Part) : Option String :=
  (parts.filterMap Part.name?).find? fun name => (env.lookup name).isNone

/-- The text of parts with their references replaced, or the first variable that is not set. -/
def replaced (env : Environment) (parts : List Part) : Except String (List Char) :=
  match missing? env parts with
  | some name => .error name
  | none => .ok (parts.flatMap (Part.value env))

/-- No opening brace stands behind a dollar sign that starts no reference. -/
def Closed (parts : List Part) : Prop :=
  ¬ [.plain '$', .plain '\x7b'] <:+: parts

instance (parts : List Part) : Decidable (Closed parts) :=
  inferInstanceAs (Decidable (¬ _))

variable {env : Environment} {cs rest name : List Char} {parts parts' : List Part}

/-! ## Names -/

/-- A name without braces does not start like one with them. -/
theorem ne_openBrace_of_isNameChar {c : Char} (h : isNameChar c = true) : c ≠ '\x7b' := by
  have hbrace : isNameChar '\x7b' = false := by decide +kernel
  rintro rfl
  rw [hbrace] at h
  exact Bool.noConfusion h

theorem splitName_openBrace (cs : List Char) : splitName ('\x7b' :: cs) =
    (cs.takeWhile (· ≠ '\x7d'), (cs.dropWhile (· ≠ '\x7d')).drop 1) :=
  rfl

theorem ne_of_notMem (inside : '\x7d' ∉ name) : ∀ c ∈ name, decide (c ≠ '\x7d') = true :=
  fun _ hc => decide_eq_true fun h => inside (h ▸ hc)

theorem splitName_braced (inside : '\x7d' ∉ name) (rest : List Char) :
    splitName ('\x7b' :: (name ++ '\x7d' :: rest)) = (name, rest) := by
  have hstops : Stops (fun c => decide (c ≠ '\x7d')) ('\x7d' :: rest) := stops_cons.2 (by decide)
  rw [splitName_openBrace, takeWhile_append_stops (ne_of_notMem inside) hstops,
    dropWhile_append_stops (ne_of_notMem inside) hstops]
  rfl

/-- A name in braces that are not closed takes the rest of the text. -/
theorem splitName_unclosed (inside : '\x7d' ∉ name) : splitName ('\x7b' :: name) = (name, []) := by
  rw [splitName_openBrace, List.takeWhile_eq_self_iff.2 (ne_of_notMem inside),
    List.dropWhile_eq_nil_iff.2 (ne_of_notMem inside)]
  rfl

theorem splitName_of_ne (h : cs.head? ≠ some '\x7b') :
    splitName cs = (cs.takeWhile isNameChar, cs.dropWhile isNameChar) := by
  unfold splitName
  split
  · exact absurd rfl h
  · rfl

theorem splitName_bare (named : name ≠ []) (inside : ∀ c ∈ name, isNameChar c = true)
    (longest : Stops isNameChar rest) : splitName (name ++ rest) = (name, rest) := by
  obtain ⟨c, more, rfl⟩ := List.exists_cons_of_ne_nil named
  have hhead : (c :: more ++ rest).head? ≠ some '\x7b' :=
    fun hbrace => ne_openBrace_of_isNameChar (inside c List.mem_cons_self) (Option.some.inj hbrace)
  rw [splitName_of_ne hhead, takeWhile_append_stops inside longest,
    dropWhile_append_stops inside longest]

/-- After a dollar sign that starts no reference no name follows. -/
theorem splitName_single (single : ¬ Refers ('$' :: rest)) (hbrace : rest.head? ≠ some '\x7b') :
    splitName rest = ([], rest) := by
  rw [splitName_of_ne hbrace]
  cases rest with
  | nil => rfl
  | cons c more =>
    have hc : isNameChar c = false := by
      rw [← Bool.not_eq_true]
      exact fun hname => single (.bare hname)
    rw [List.takeWhile_cons_of_neg (by simp [hc]), List.dropWhile_cons_of_neg (by simp [hc])]

/-! ## The cut of a text -/

theorem not_refers_of_ne {c : Char} (h : c ≠ '$') (rest : List Char) : ¬ Refers (c :: rest) := by
  intro hrefers
  cases hrefers with
  | braced => exact h rfl
  | bare => exact h rfl

/-- The parts of a text hold all its characters. -/
theorem Cut.chars (h : Cut cs parts) : parts.flatMap Part.chars = cs := by
  induction h with
  | nil => rfl
  | plain _ _ ih => rw [List.flatMap_cons, ih]; rfl
  | braced _ _ _ ih => rw [List.flatMap_cons, ih]; simp [Part.chars]
  | bare _ _ _ _ ih => rw [List.flatMap_cons, ih]; rfl

/-- Every text can be cut. -/
theorem exists_cut (cs : List Char) : ∃ parts, Cut cs parts := by
  -- on the length, because a reference takes several characters
  induction hlength : cs.length using Nat.strongRecOn generalizing cs with
  | ind n ih =>
    subst hlength
    cases cs with
    | nil => exact ⟨[], .nil⟩
    | cons c rest =>
      by_cases hrefers : Refers (c :: rest)
      · cases hrefers with
        | @braced name rest named inside =>
          obtain ⟨parts, hparts⟩ := ih rest.length (by simp; omega) rest rfl
          exact ⟨_, .braced named inside hparts⟩
        | @bare c rest hc =>
          obtain ⟨parts, hparts⟩ := ih ((c :: rest).dropWhile isNameChar).length
            (Nat.lt_succ_of_le (List.dropWhile_suffix _).length_le) _ rfl
          have hnamed : (c :: rest).takeWhile isNameChar ≠ [] := by
            rw [List.takeWhile_cons_of_pos hc]
            exact List.cons_ne_nil _ _
          have hcut := Cut.bare hnamed (fun _ => List.mem_takeWhile_imp)
            (stops_dropWhile isNameChar (c :: rest)) hparts
          rw [List.takeWhile_append_dropWhile] at hcut
          exact ⟨_, hcut⟩
      · obtain ⟨parts, hparts⟩ := ih rest.length (Nat.lt_succ_self _) rest rfl
        exact ⟨_, .plain hrefers hparts⟩

/-- A text that starts with no reference has its first character as a part of its own. -/
theorem Cut.of_single {c : Char} (h : Cut (c :: rest) parts) (single : ¬ Refers (c :: rest)) :
    ∃ parts', parts = .plain c :: parts' ∧ Cut rest parts' := by
  generalize hcs : c :: rest = cs at h
  cases h with
  | nil => simp at hcs
  | plain _ others =>
    obtain ⟨rfl, rfl⟩ := List.cons.inj hcs
    exact ⟨_, rfl, others⟩
  | braced named inside others =>
    rw [hcs] at single
    exact absurd (.braced named inside) single
  | bare named inside _ _ =>
    rw [hcs] at single
    obtain ⟨c, more, rfl⟩ := List.exists_cons_of_ne_nil named
    exact absurd (.bare (inside c List.mem_cons_self)) single

/-- A text that starts with a name in braces has it as its first part. -/
theorem Cut.of_braced (h : Cut ('$' :: '\x7b' :: (name ++ '\x7d' :: rest)) parts) (named : name ≠ [])
    (inside : '\x7d' ∉ name) : ∃ parts', parts = .braced name :: parts' ∧ Cut rest parts' := by
  generalize hcs : '$' :: '\x7b' :: (name ++ '\x7d' :: rest) = cs at h
  cases h with
  | nil => simp at hcs
  | plain single _ =>
    rw [← hcs] at single
    exact absurd (.braced named inside) single
  | @braced name' rest' _ _ inside' others =>
    -- both names end at the first closing brace
    obtain ⟨-, hsame⟩ := List.cons.inj hcs
    have hsplit := splitName_braced inside rest
    rw [hsame, splitName_braced inside' rest'] at hsplit
    obtain ⟨rfl, rfl⟩ := Prod.mk.inj hsplit
    exact ⟨_, rfl, others⟩
  | @bare name' rest' _ named' inside' _ _ =>
    obtain ⟨c, more, rfl⟩ := List.exists_cons_of_ne_nil named'
    obtain ⟨-, hsame⟩ := List.cons.inj hcs
    obtain ⟨hbrace, -⟩ := List.cons.inj hsame
    exact absurd hbrace.symm (ne_openBrace_of_isNameChar (inside' c List.mem_cons_self))

/-- A text that starts with a name without braces has it as its first part. -/
theorem Cut.of_bare (h : Cut ('$' :: (name ++ rest)) parts) (named : name ≠ [])
    (inside : ∀ c ∈ name, isNameChar c = true) (longest : Stops isNameChar rest) :
    ∃ parts', parts = .bare name :: parts' ∧ Cut rest parts' := by
  obtain ⟨c, more, rfl⟩ := List.exists_cons_of_ne_nil named
  have hname : isNameChar c = true := inside c List.mem_cons_self
  generalize hcs : '$' :: (c :: more ++ rest) = cs at h
  cases h with
  | nil => simp at hcs
  | plain single _ =>
    rw [← hcs] at single
    exact absurd (.bare hname) single
  | braced _ _ _ =>
    obtain ⟨-, hsame⟩ := List.cons.inj hcs
    obtain ⟨hbrace, -⟩ := List.cons.inj hsame
    exact absurd hbrace (ne_openBrace_of_isNameChar hname)
  | @bare name' rest' _ named' inside' longest' others =>
    obtain ⟨-, hsame⟩ := List.cons.inj hcs
    have hsplit := splitName_bare named inside longest
    rw [hsame, splitName_bare named' inside' longest'] at hsplit
    obtain ⟨rfl, rfl⟩ := Prod.mk.inj hsplit
    exact ⟨_, rfl, others⟩

/-- Every text is cut in one way only. -/
theorem Cut.unique (h : Cut cs parts) (h' : Cut cs parts') : parts' = parts := by
  induction h generalizing parts' with
  | nil =>
    cases h'
    rfl
  | plain single _ ih =>
    obtain ⟨others, rfl, hothers⟩ := h'.of_single single
    rw [ih hothers]
  | braced named inside _ ih =>
    obtain ⟨others, rfl, hothers⟩ := h'.of_braced named inside
    rw [ih hothers]
  | bare named inside longest _ ih =>
    obtain ⟨others, rfl, hothers⟩ := h'.of_bare named inside longest
    rw [ih hothers]

/-! ## Replacing references -/

theorem replaced_plain (env : Environment) (c : Char) (parts : List Part) :
    replaced env (.plain c :: parts) = (replaced env parts).map (c :: ·) := by
  have hmissing : missing? env (.plain c :: parts) = missing? env parts := rfl
  unfold replaced
  rw [hmissing]
  cases missing? env parts <;> rfl

theorem replaced_reference {part : Part} {name : String} (h : part.name? = some name)
    (env : Environment) (parts : List Part) :
    replaced env (part :: parts) =
      match env.lookup name with
      | none => .error name
      | some value => (replaced env parts).map (value.toList ++ ·) := by
  have hvalue : part.value env = ((env.lookup name).getD "").toList := by
    cases part with
    | plain c => simp [Part.name?] at h
    | braced | bare =>
      obtain rfl := Option.some.inj h
      rfl
  have hmissing : missing? env (part :: parts) =
      if (env.lookup name).isNone then some name else missing? env parts := by
    unfold missing?
    rw [List.filterMap_cons, h]
    dsimp only
    rw [List.find?_cons]
    cases (env.lookup name).isNone <;> rfl
  unfold replaced
  rw [hmissing, List.flatMap_cons, hvalue]
  cases env.lookup name with
  | none => rfl
  | some value => cases missing? env parts <;> rfl

theorem expandChars_plain {c : Char} (hc : c ≠ '$') (env : Environment) (fuel : Nat)
    (rest : List Char) :
    expandChars env (fuel + 1) (c :: rest) = (expandChars env fuel rest).map (c :: ·) := by
  rw [expandChars, if_pos hc]

theorem expandChars_single {after : List Char} (hsplit : splitName rest = ([], after))
    (env : Environment) (fuel : Nat) :
    expandChars env (fuel + 1) ('$' :: rest) = (expandChars env fuel after).map ('$' :: ·) := by
  rw [expandChars, if_neg (by simp), hsplit]
  rfl

theorem expandChars_reference {after : List Char} (hsplit : splitName rest = (name, after))
    (named : name ≠ []) (env : Environment) (fuel : Nat) :
    expandChars env (fuel + 1) ('$' :: rest) =
      match env.lookup (String.ofList name) with
      | none => .error (String.ofList name)
      | some value => (expandChars env fuel after).map (value.toList ++ ·) := by
  have hname : name.isEmpty = false := by simpa using named
  rw [expandChars, if_neg (by simp), hsplit]
  dsimp only
  rw [hname]
  rfl

theorem closed_cons {part : Part} : Closed (part :: parts) ↔
    ¬ [.plain '$', .plain '\x7b'] <+: part :: parts ∧ Closed parts := by
  unfold Closed
  rw [List.infix_cons_iff, not_or]

/-- Behind a dollar sign that stands for itself no opening brace follows. -/
theorem Closed.head? (h : Closed (.plain '$' :: parts)) (hcut : Cut rest parts) :
    rest.head? ≠ some '\x7b' := by
  intro hhead
  obtain ⟨more, rfl⟩ := List.head?_eq_some_iff.1 hhead
  obtain ⟨others, rfl, -⟩ := hcut.of_single (not_refers_of_ne (by decide) more)
  exact (closed_cons.1 h).1 ⟨others, rfl⟩

/-- A text without stray opening braces is expanded part by part. -/
theorem Cut.expandChars_eq (h : Cut cs parts) (hclosed : Closed parts) {fuel : Nat}
    (hfuel : cs.length ≤ fuel) : expandChars env fuel cs = replaced env parts := by
  -- the expansion takes a part at a time, and no part is empty, so the fuel lasts
  induction h generalizing fuel with
  | nil => cases fuel <;> rfl
  | @plain c rest parts single others ih =>
    obtain ⟨fuel, rfl⟩ : ∃ n, fuel = n + 1 := ⟨fuel - 1, by rw [List.length_cons] at hfuel; omega⟩
    have hrest : expandChars env fuel rest = replaced env parts :=
      ih (closed_cons.1 hclosed).2 (by rw [List.length_cons] at hfuel; omega)
    rw [replaced_plain, ← hrest]
    by_cases hc : c = '$'
    · subst hc
      exact expandChars_single (splitName_single single (hclosed.head? others)) env fuel
    · exact expandChars_plain hc env fuel rest
  | @braced name rest parts named inside others ih =>
    obtain ⟨fuel, rfl⟩ : ∃ n, fuel = n + 1 := ⟨fuel - 1, by rw [List.length_cons] at hfuel; omega⟩
    simp only [List.length_cons, List.length_append] at hfuel
    have hrest : expandChars env fuel rest = replaced env parts :=
      ih (closed_cons.1 hclosed).2 (by omega)
    rw [replaced_reference rfl, ← hrest]
    exact expandChars_reference (splitName_braced inside rest) named env fuel
  | @bare name rest parts named inside longest others ih =>
    obtain ⟨fuel, rfl⟩ : ∃ n, fuel = n + 1 := ⟨fuel - 1, by rw [List.length_cons] at hfuel; omega⟩
    simp only [List.length_cons, List.length_append] at hfuel
    have hrest : expandChars env fuel rest = replaced env parts :=
      ih (closed_cons.1 hclosed).2 (by omega)
    rw [replaced_reference rfl, ← hrest]
    exact expandChars_reference (splitName_bare named inside longest) named env fuel

/-! ## Stray braces -/

theorem referencesIn_plain {c : Char} (hc : c ≠ '$') (fuel : Nat) (rest : List Char) :
    referencesIn (fuel + 1) (c :: rest) = referencesIn fuel rest := by
  rw [referencesIn, if_pos hc]

theorem referencesIn_single {after : List Char} (hsplit : splitName rest = ([], after)) (fuel : Nat) :
    referencesIn (fuel + 1) ('$' :: rest) = referencesIn fuel after := by
  rw [referencesIn, if_neg (by simp), hsplit]
  rfl

theorem referencesIn_reference {after : List Char} (hsplit : splitName rest = (name, after))
    (named : name ≠ []) (fuel : Nat) :
    referencesIn (fuel + 1) ('$' :: rest) = String.ofList name :: referencesIn fuel after := by
  have hname : name.isEmpty = false := by simpa using named
  rw [referencesIn, if_neg (by simp), hsplit]
  dsimp only
  rw [hname]
  rfl

/-- With empty values a text expands to no more characters than its parts have, and to fewer if one of
their braces is stray. -/
def Shrinks (env : Environment) (fuel : Nat) (cs : List Char) (parts : List Part) : Prop :=
  ∃ text, expandChars env fuel cs = .ok text ∧
    text.length ≤ (parts.flatMap (Part.value env)).length ∧
      (¬ Closed parts → text.length < (parts.flatMap (Part.value env)).length)

theorem Shrinks.plain {fuel fuel' : Nat} {c : Char} (h : Shrinks env fuel rest parts)
    (hexpand : expandChars env fuel' cs = (expandChars env fuel rest).map (c :: ·))
    (hclosed : Closed parts → Closed (.plain c :: parts)) :
    Shrinks env fuel' cs (.plain c :: parts) := by
  obtain ⟨text, htext, hle, hlt⟩ := h
  refine ⟨c :: text, by rw [hexpand, htext]; rfl, ?_, fun hstray => ?_⟩
  · simpa [Part.value] using hle
  · simpa [Part.value] using hlt (mt hclosed hstray)

theorem Shrinks.reference {fuel : Nat} {part : Part} {after : List Char}
    (hsplit : splitName rest = (name, after)) (named : name ≠ [])
    (hname : part.name? = some (String.ofList name))
    (hsilent : ∀ name ∈ referencesIn (fuel + 1) ('$' :: rest), env.lookup name = some "")
    (h : (∀ name ∈ referencesIn fuel after, env.lookup name = some "") → Shrinks env fuel after parts) :
    Shrinks env (fuel + 1) ('$' :: rest) (part :: parts) := by
  rw [referencesIn_reference hsplit named] at hsilent
  obtain ⟨hvalue, hnames⟩ := List.forall_mem_cons.1 hsilent
  obtain ⟨text, htext, hle, hlt⟩ := h hnames
  have hexpand := expandChars_reference hsplit named env fuel
  rw [hvalue, htext] at hexpand
  have hclosed : Closed parts → Closed (part :: parts) := by
    refine fun hparts => closed_cons.2 ⟨?_, hparts⟩
    rintro ⟨more, hmore⟩
    obtain ⟨rfl, -⟩ := List.cons.inj hmore
    simp [Part.name?] at hname
  refine ⟨text, hexpand, ?_, fun hstray => ?_⟩
  · rw [List.flatMap_cons, List.length_append]
    omega
  · have hless := hlt (mt hclosed hstray)
    rw [List.flatMap_cons, List.length_append]
    omega

theorem notMem_or_split (cs : List Char) : '\x7d' ∉ cs ∨
    ∃ name after, cs = name ++ '\x7d' :: after ∧ '\x7d' ∉ name := by
  by_cases h : '\x7d' ∈ cs
  · obtain ⟨name, after, rfl, hname⟩ := List.eq_append_cons_of_mem h
    exact .inr ⟨name, after, rfl, hname⟩
  · exact .inl h

/-- Behind a dollar sign an opening brace that starts no reference swallows characters. -/
theorem shrinks_stray {fuel : Nat} {more : List Char} (single : ¬ Refers ('$' :: '\x7b' :: more))
    (hcut : Cut ('\x7b' :: more) parts)
    (hsilent : ∀ name ∈ referencesIn (fuel + 1) ('$' :: '\x7b' :: more), env.lookup name = some "")
    (hrest : ∀ after parts', more = '\x7d' :: after → Cut after parts' →
      (∀ name ∈ referencesIn fuel after, env.lookup name = some "") → Shrinks env fuel after parts') :
    Shrinks env (fuel + 1) ('$' :: '\x7b' :: more) (.plain '$' :: parts) := by
  obtain ⟨parts', rfl, hmore⟩ := hcut.of_single (not_refers_of_ne (by decide) more)
  have hshorter : ∀ text, expandChars env (fuel + 1) ('$' :: '\x7b' :: more) = .ok text →
      text.length < 2 + (parts'.flatMap (Part.value env)).length →
        Shrinks env (fuel + 1) ('$' :: '\x7b' :: more) (.plain '$' :: .plain '\x7b' :: parts') := by
    intro text htext hlt
    have hlength : ((Part.plain '$' :: Part.plain '\x7b' :: parts').flatMap (Part.value env)).length =
        2 + (parts'.flatMap (Part.value env)).length := by
      simp [Part.value]
      omega
    exact ⟨text, htext, by omega, fun _ => by omega⟩
  rcases notMem_or_split more with hopen | ⟨name, after, rfl, hname⟩
  · have hsplit := splitName_unclosed hopen
    cases more with
    | nil =>
      have hexpand := expandChars_single hsplit env fuel
      refine hshorter ['$'] ?_ (by rw [List.length_singleton]; omega)
      rw [hexpand]
      cases fuel <;> rfl
    | cons c more =>
      have hexpand := expandChars_reference hsplit (List.cons_ne_nil c more) env fuel
      rw [referencesIn_reference hsplit (List.cons_ne_nil c more)] at hsilent
      rw [hsilent _ List.mem_cons_self] at hexpand
      refine hshorter [] ?_ (by rw [List.length_nil]; omega)
      rw [hexpand]
      cases fuel <;> rfl
  · -- only braces without a name are no reference
    obtain rfl : name = [] := by
      by_contra hne
      exact single (.braced hne hname)
    have hsplit := splitName_braced hname after
    obtain ⟨others, rfl, hafter⟩ := hmore.of_single (not_refers_of_ne (by decide) after)
    rw [referencesIn_single hsplit] at hsilent
    obtain ⟨text, htext, hle, -⟩ := hrest after others rfl hafter hsilent
    refine hshorter ('$' :: text) ?_ ?_
    · rw [expandChars_single hsplit, htext]
      rfl
    · simp only [List.flatMap_cons, List.length_append, List.length_cons, Part.value, List.length_nil]
      omega

theorem Cut.shrinks {fuel : Nat} (h : Cut cs parts) (hfuel : cs.length ≤ fuel)
    (hsilent : ∀ name ∈ referencesIn fuel cs, env.lookup name = some "") :
    Shrinks env fuel cs parts := by
  -- on the length, because empty braces are passed over with their dollar sign
  induction hlength : cs.length using Nat.strongRecOn generalizing cs parts fuel with
  | ind n ih =>
    subst hlength
    cases h with
    | nil =>
      refine ⟨[], by cases fuel <;> rfl, Nat.zero_le _, fun hstray => absurd ?_ hstray⟩
      decide
    | @plain c rest parts single others =>
      rw [List.length_cons] at hfuel
      obtain ⟨fuel, rfl⟩ : ∃ n, fuel = n + 1 := ⟨fuel - 1, by omega⟩
      by_cases hc : c = '$'
      · subst hc
        by_cases hbrace : rest.head? = some '\x7b'
        · obtain ⟨more, rfl⟩ := List.head?_eq_some_iff.1 hbrace
          refine shrinks_stray single others hsilent fun after parts' hmore hafter hnames => ?_
          subst hmore
          simp only [List.length_cons] at hfuel ih
          exact ih after.length (by omega) hafter (by omega) hnames rfl
        · have hsplit := splitName_single single hbrace
          rw [referencesIn_single hsplit] at hsilent
          have hrest := ih rest.length (by simp) others (by omega) hsilent rfl
          refine hrest.plain (expandChars_single hsplit env fuel) fun hclosed =>
            closed_cons.2 ⟨?_, hclosed⟩
          rintro ⟨later, hlater⟩
          obtain ⟨-, rfl⟩ := List.cons.inj hlater
          cases others
          exact hbrace rfl
      · rw [referencesIn_plain hc] at hsilent
        have hrest := ih rest.length (by simp) others (by omega) hsilent rfl
        refine hrest.plain (expandChars_plain hc env fuel rest) fun hclosed =>
          closed_cons.2 ⟨?_, hclosed⟩
        rintro ⟨later, hlater⟩
        obtain ⟨hhead, -⟩ := List.cons.inj hlater
        exact hc (Part.plain.inj hhead).symm
    | @braced name rest parts named inside others =>
      simp only [List.length_cons, List.length_append] at hfuel ih
      obtain ⟨fuel, rfl⟩ : ∃ n, fuel = n + 1 := ⟨fuel - 1, by omega⟩
      exact .reference (splitName_braced inside rest) named rfl hsilent
        fun hnames => ih rest.length (by omega) others (by omega) hnames rfl
    | @bare name rest parts named inside longest others =>
      simp only [List.length_cons, List.length_append] at hfuel ih
      obtain ⟨fuel, rfl⟩ : ∃ n, fuel = n + 1 := ⟨fuel - 1, by omega⟩
      exact .reference (splitName_bare named inside longest) named rfl hsilent
        fun hnames => ih rest.length (by omega) others (by omega) hnames rfl

/-- An environment in which some variables are set, and empty. -/
def silent (names : List String) : Environment :=
  names.map fun name => (name, "")

theorem lookup_silent {names : List String} {name : String} (h : name ∈ names) :
    (silent names).lookup name = some "" := by
  induction names with
  | nil => exact absurd h List.not_mem_nil
  | cons first names ih =>
    rw [silent, List.map_cons, List.lookup_cons]
    split
    · rfl
    · rename_i hne
      rcases List.mem_cons.1 h with rfl | h
      · simp at hne
      · exact ih h

/-! ## Configured paths -/

/-- A configured path is the text of its parts with every reference replaced by its value, and no value
is read again; or the error names the first variable that is not set. In every environment this holds
exactly if no opening brace stands behind a dollar sign that starts no reference. -/
theorem expandPath_replaced (path : String) : ∃ parts, Cut path.toList parts ∧
    (∀ parts', Cut path.toList parts' → parts' = parts) ∧
    parts.flatMap Part.chars = path.toList ∧
    ((∀ env, expandPath env path =
        match replaced env parts with
        | .ok text => .ok (String.ofList text)
        | .error name => .error (.missingVariable name)) ↔ Closed parts) := by
  obtain ⟨parts, hcut⟩ := exists_cut path.toList
  refine ⟨parts, hcut, fun parts' hcut' => hcut.unique hcut', hcut.chars, fun hall => ?_,
    fun hclosed env => ?_⟩
  · by_contra hstray
    have hsame := hall (silent (referencesIn path.toList.length path.toList))
    obtain ⟨text, htext, -, hlt⟩ := hcut.shrinks le_rfl fun name hname => lookup_silent hname
    have hless := hlt hstray
    unfold expandPath expand at hsame
    rw [htext] at hsame
    unfold replaced at hsame
    cases hmissing : missing? (silent (referencesIn path.toList.length path.toList)) parts with
    | some name => simp [hmissing, Except.map] at hsame
    | none =>
      simp only [hmissing, Except.map, Except.ok.injEq, String.ofList_inj] at hsame
      rw [hsame] at hless
      exact lt_irrefl _ hless
  · unfold expandPath expand
    rw [hcut.expandChars_eq hclosed le_rfl]
    cases replaced env parts <;> rfl

/-- A reference of either kind and a dollar sign that stands for itself. -/
theorem expandPath_replaced_year : ∃ parts, Cut "$\x7bDIR\x7d/$YEAR$".toList parts ∧ Closed parts ∧
    expandPath [("YEAR", "2024"), ("DIR", "$YEAR")] "$\x7bDIR\x7d/$YEAR$" = .ok "$YEAR/2024$" ∧
    expandPath [("DIR", "/srv")] "$\x7bDIR\x7d/$YEAR$" = .error (.missingVariable "YEAR") := by
  obtain ⟨parts, hcut, hunique, -, hexpand⟩ := expandPath_replaced "$\x7bDIR\x7d/$YEAR$"
  have hparts : Cut "$\x7bDIR\x7d/$YEAR$".toList
      [.braced ['D', 'I', 'R'], .plain '/', .bare ['Y', 'E', 'A', 'R'], .plain '$'] := by
    have hlast : ¬ Refers ['$'] := by
      intro hrefers
      cases hrefers
    have hyear : Cut ['$', 'Y', 'E', 'A', 'R', '$'] [.bare ['Y', 'E', 'A', 'R'], .plain '$'] :=
      @Cut.bare ['Y', 'E', 'A', 'R'] ['$'] _ (by simp) (by decide +kernel)
        (stops_cons.2 (by decide +kernel)) (.plain hlast .nil)
    exact @Cut.braced ['D', 'I', 'R'] _ _ (by simp) (by simp)
      (.plain (not_refers_of_ne (by decide) _) hyear)
  obtain rfl := hunique _ hparts
  have hclosed : Closed
      [.braced ['D', 'I', 'R'], .plain '/', .bare ['Y', 'E', 'A', 'R'], .plain '$'] := by
    decide
  refine ⟨_, hparts, hclosed, ?_, ?_⟩
  · rw [hexpand.2 hclosed]
    decide +kernel
  · rw [hexpand.2 hclosed]
    decide +kernel

/-- Empty braces are swallowed, and a brace that is never closed is read as one. -/
theorem expandPath_replaced_stray :
    (Cut ['$', '\x7b', '\x7d'] [.plain '$', .plain '\x7b', .plain '\x7d'] ∧
      replaced [] [.plain '$', .plain '\x7b', .plain '\x7d'] = .ok ['$', '\x7b', '\x7d'] ∧
      expandPath [] "$\x7b\x7d" = .ok "$") ∧
    expandPath [("HOME", "/root")] "$\x7bHOME" = .ok "/root" := by
  have hbraces : ¬ Refers ['$', '\x7b', '\x7d'] := by
    intro hrefers
    generalize hcs : ['$', '\x7b', '\x7d'] = cs at hrefers
    cases hrefers with
    | @braced name rest named inside =>
      obtain ⟨c, more, rfl⟩ := List.exists_cons_of_ne_nil named
      simp only [List.cons_append, List.cons.injEq, true_and] at hcs
      exact inside (hcs.1 ▸ List.mem_cons_self)
    | bare named =>
      obtain ⟨-, hrest⟩ := List.cons.inj hcs
      obtain ⟨hbrace, -⟩ := List.cons.inj hrest
      exact ne_openBrace_of_isNameChar named hbrace.symm
  have hcut : Cut ['$', '\x7b', '\x7d'] [.plain '$', .plain '\x7b', .plain '\x7d'] :=
    .plain hbraces (.plain (not_refers_of_ne (by decide) _)
      (.plain (not_refers_of_ne (by decide) _) .nil))
  exact ⟨⟨hcut, by decide +kernel, by decide +kernel⟩, by decide +kernel⟩

end Environment

end ReportSql
