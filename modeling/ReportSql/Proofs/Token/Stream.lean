import ReportSql.Proofs.Token.Scan

/-!
# Streams of tokens

The tokens of a text are read one after the other. A list of tokens is read back
from the text that it prints exactly when each of its tokens is read at its own
place: a reader that has gone ahead of a token stays ahead to the end.

## Main results

* `Token.tokenize_eq_ok` - the tokens of a text as a chain of readings
* `Token.tokenize_textOf` - when a list of tokens is read back
-/

namespace ReportSql

namespace Token

variable {d : Dialect}

/-- The tokens of a text, read one after the other. -/
inductive Reads (d : Dialect) : List Char → List Token → Prop
  | nil : Reads d [] []
  | cons {cs left : List Char} {t : Token} {tokens : List Token} (first : Begins d cs t left)
      (rest : Reads d left tokens) : Reads d cs (t :: tokens)

theorem begins_shorter {cs left : List Char} {t : Token} (h : Begins d cs t left) :
    left.length < cs.length := by
  obtain ⟨taken, rfl, hne, -⟩ := begins_taken h
  have hpos := List.length_pos_iff.2 hne
  rw [List.length_append]
  omega

theorem reads_nil {tokens : List Token} : Reads d [] tokens ↔ tokens = [] := by
  constructor
  · rintro (_ | ⟨hfirst, -⟩)
    · rfl
    · exact hfirst.elim
  · rintro rfl
    exact .nil

theorem reads_cons {c : Char} {rest : List Char} {tokens : List Token} :
    Reads d (c :: rest) tokens ↔
      ∃ t left more, scan d c rest = .ok (t, left) ∧ Reads d left more ∧ tokens = t :: more := by
  constructor
  · rintro (_ | ⟨hfirst, hrest⟩)
    exact ⟨_, _, _, hfirst, hrest, rfl⟩
  · rintro ⟨t, left, more, hscan, hrest, rfl⟩
    exact .cons hscan hrest

theorem scanAll_nil (fuel : Nat) : scanAll d fuel [] = .ok [] := by
  cases fuel <;> rfl

theorem scanAll_eq_ok {fuel : Nat} {cs : List Char} {tokens : List Token}
    (hfuel : cs.length ≤ fuel) : scanAll d fuel cs = .ok tokens ↔ Reads d cs tokens := by
  -- each token takes a character at least, so the fuel lasts
  induction fuel generalizing cs tokens with
  | zero =>
    obtain rfl := List.length_eq_zero_iff.1 (Nat.le_zero.1 hfuel)
    rw [scanAll_nil, reads_nil, Except.ok.injEq, eq_comm]
  | succ fuel ih =>
    cases cs with
    | nil => rw [scanAll_nil, reads_nil, Except.ok.injEq, eq_comm]
    | cons c rest =>
      have hstep : ∀ t left, scan d c rest = .ok (t, left) → left.length ≤ fuel := by
        intro t left h
        have hbegins : Begins d (c :: rest) t left := h
        have hlt := begins_shorter hbegins
        rw [List.length_cons] at hlt hfuel
        omega
      rw [scanAll, reads_cons, bind_eq_ok]
      constructor
      · rintro ⟨⟨t, left⟩, hscan, h⟩
        obtain ⟨more, hall, hmore⟩ := bind_eq_ok.1 h
        obtain rfl := Except.ok.inj hmore
        exact ⟨t, left, more, hscan, (ih (hstep t left hscan)).1 hall, rfl⟩
      · rintro ⟨t, left, more, hscan, hrest, rfl⟩
        exact ⟨(t, left), hscan, bind_eq_ok.2 ⟨more, (ih (hstep t left hscan)).2 hrest, rfl⟩⟩

theorem tokenize_eq_ok {sql : String} {tokens : List Token} :
    tokenize d sql = .ok tokens ↔ Reads d sql.toList tokens := by
  rw [← scanAll_eq_ok le_rfl]
  unfold tokenize
  dsimp only
  split
  · rename_i more h
    rw [h]
    simp
  · rename_i problem left h
    rw [h]
    simp

theorem tokenize_eq_single {sql : String} {t : Token} :
    tokenize d sql = .ok [t] ↔ Begins d sql.toList t [] := by
  rw [tokenize_eq_ok]
  generalize sql.toList = cs
  constructor
  · intro h
    obtain _ | ⟨hfirst, hrest⟩ := h
    cases hrest
    exact hfirst
  · exact fun h => .cons h .nil

/-! ## Lists of tokens that are read back -/

/-- Each token is read at its own place in the text that a list of tokens prints. -/
def Aligned (d : Dialect) : List Token → Prop
  | [] => True
  | t :: rest => Begins d (t.chars ++ charsOf rest) t (charsOf rest) ∧ Aligned d rest

theorem Aligned.reads {tokens : List Token} (h : Aligned d tokens) :
    Reads d (charsOf tokens) tokens := by
  induction tokens with
  | nil => exact .nil
  | cons t rest ih =>
    rw [charsOf_cons]
    exact .cons h.1 (ih h.2)

/-- A reader that has gone ahead of the text of its tokens does not come to the end with it. Only a
hexadecimal number takes less than it prints, and it does not start with the quote that a reader
one character ahead would meet. -/
private theorem not_reads_ahead {cs ahead : List Char} {tokens : List Token} (h : Reads d cs tokens)
    (hne : ahead ≠ []) (hcs : charsOf tokens = ahead ++ cs) : False := by
  induction h generalizing ahead with
  | nil => exact hne (by simpa using hcs.symm)
  | @cons cs left t tokens hfirst hrest ih =>
    obtain ⟨taken, rfl, hnonempty, htaken⟩ := begins_taken hfirst
    have hpos := List.length_pos_iff.2 hne
    have hlt : t.chars.length < ahead.length + taken.length := by
      rcases htaken with hle | ⟨hhead, ⟨more, hmore⟩, hlength⟩
      · omega
      · -- the literal prints a quote where the reader met a zero
        rcases Nat.lt_or_ge 1 ahead.length with hlt | hge
        · omega
        · obtain ⟨a, rfl⟩ := List.length_eq_one_iff.1 (Nat.le_antisymm hge hpos)
          rw [charsOf_cons, hmore] at hcs
          have htail : '\'' :: (more ++ charsOf tokens) = taken ++ left := (List.cons.inj hcs).2
          rw [← htail] at hhead
          exact absurd (Option.some.inj hhead) (by decide)
    rw [charsOf_cons, ← List.append_assoc] at hcs
    obtain ⟨more, hmore⟩ : ∃ more, ahead ++ taken = t.chars ++ more := by
      have hprefix : t.chars <+: ahead ++ taken :=
        List.prefix_of_prefix_length_le ⟨charsOf tokens, hcs⟩ (List.prefix_append _ left)
          (by rw [List.length_append]; omega)
      obtain ⟨more, hmore⟩ := hprefix
      exact ⟨more, hmore.symm⟩
    have hmore_ne : more ≠ [] := by
      rintro rfl
      have hlength := congrArg List.length hmore
      rw [List.append_nil, List.length_append] at hlength
      omega
    rw [hmore, List.append_assoc] at hcs
    exact ih hmore_ne (List.append_cancel_left hcs)

theorem Reads.aligned {tokens : List Token} (h : Reads d (charsOf tokens) tokens) :
    Aligned d tokens := by
  generalize hcs : charsOf tokens = cs at h
  induction h with
  | nil => trivial
  | @cons cs left t tokens hfirst hrest ih =>
    subst hcs
    obtain ⟨taken, htext, hnonempty, htaken⟩ := begins_taken hfirst
    rw [charsOf_cons] at htext
    -- a hexadecimal literal is longer in print, but what is printed starts with X
    have hle : t.chars.length ≤ taken.length := by
      rcases htaken with hle | ⟨hhead, ⟨more, hmore⟩, -⟩
      · exact hle
      · rw [charsOf_cons, hmore] at hhead
        exact absurd (Option.some.inj hhead) (by decide)
    obtain ⟨more, rfl⟩ : t.chars <+: taken :=
      List.prefix_of_prefix_length_le ⟨charsOf tokens, rfl⟩ (htext ▸ List.prefix_append _ _) hle
    rw [List.append_assoc] at htext
    have hleft := List.append_cancel_left htext
    by_cases hmore : more = []
    · subst hmore
      rw [List.nil_append] at hleft
      refine ⟨?_, ih hleft⟩
      rw [charsOf_cons, ← hleft] at hfirst
      exact hfirst
    · exact (not_reads_ahead hrest hmore hleft).elim

/-- A list of tokens is read back from its text exactly when each of its tokens is read at its own
place. -/
theorem tokenize_textOf {tokens : List Token} :
    tokenize d (textOf tokens) = .ok tokens ↔ Aligned d tokens := by
  rw [tokenize_eq_ok, toList_textOf]
  exact ⟨Reads.aligned, Aligned.reads⟩

/-! ## Tokens that stand apart -/

/-- A token is read back from what it prints when nothing follows. -/
def Alone (d : Dialect) (t : Token) : Prop :=
  Begins d t.chars t []

/-- Each token is read back by itself, and what follows it does not run into it. -/
def Separated (d : Dialect) : List Token → Prop
  | [] => True
  | t :: rest => (Alone d t ∧ Apart d t (charsOf rest)) ∧ Separated d rest

theorem begins_iff_alone {t : Token} {next : List Char} :
    Begins d (t.chars ++ next) t next ↔ Alone d t ∧ Apart d t next := by
  constructor
  · intro h
    obtain ⟨plain, apart⟩ := (begins_iff_apart h next).1 h
    have halone := (begins_iff_apart h []).2 ⟨plain, apart_nil t⟩
    rw [List.append_nil] at halone
    exact ⟨halone, apart⟩
  · rintro ⟨halone, apart⟩
    have hself : Begins d (t.chars ++ []) t [] := by
      rw [List.append_nil]
      exact halone
    obtain ⟨plain, -⟩ := (begins_iff_apart halone []).1 hself
    exact (begins_iff_apart halone next).2 ⟨plain, apart⟩

theorem aligned_iff_separated {tokens : List Token} : Aligned d tokens ↔ Separated d tokens := by
  induction tokens with
  | nil => exact Iff.rfl
  | cons t rest ih => exact and_congr begins_iff_alone ih

/-- A list of tokens is read back from its text exactly when its tokens stand apart. -/
theorem tokenize_textOf_iff_separated {tokens : List Token} :
    tokenize d (textOf tokens) = .ok tokens ↔ Separated d tokens :=
  tokenize_textOf.trans aligned_iff_separated

/-- A token that was read needs to be plain to stand alone. -/
theorem alone_iff_plain {cs left : List Char} {t : Token} (h : Begins d cs t left) :
    Alone d t ↔ Plain d t := by
  have hself := begins_iff_apart h []
  rw [List.append_nil] at hself
  exact hself.trans (and_iff_left (apart_nil t))

end Token

end ReportSql
