import ReportSql.Proofs.Token.Echo

/-!
# Reading printed tokens back

The tokens of a text print another text, and the two differ where a token is
printed in another way than it was read. Five kinds of tokens are not read back
from what they print; `Faithful` rules them out and nothing else.

## Main results

* `Token.Faithful` - a list of tokens that is read back
* `Token.Reads.tokenize_textOf_iff` - the tokens at the head of a text are read back
  exactly when they are faithful
-/

namespace ReportSql

namespace Token

variable {d : Dialect}

/-- What a token and the text after it need for the token to be read back: a content that is kept
decoded has no quote and no backslash, no quote follows a hexadecimal literal, nothing follows a
question mark that is an operator, and no operator follows that would belong to an inequality or to
a comparison. -/
def Keeps (d : Dialect) (t : Token) (next : List Char) : Prop :=
  match t with
  | .literal .escaped content | .literal .unicode content => Literal content.toList
  | .literal .hexadecimal _ => next.head? ≠ some '\''
  | .operator text =>
    (text = "?" → next = []) ∧ (text = "<>" → Stops (isOperatorPart d) next) ∧
      (text = "<" → next.head? ≠ some '<')
  | _ => True

/-- A list of tokens of which each keeps itself before those that follow. -/
def Faithful (d : Dialect) : List Token → Prop
  | [] => True
  | t :: rest => Keeps d t (charsOf rest) ∧ Faithful d rest

theorem keeps_of_apart {t : Token} {next : List Char} (plain : Plain d t) (apart : Apart d t next) :
    Keeps d t next := by
  unfold Keeps
  split
  · exact plain
  · exact plain
  · exact apart
  · refine ⟨fun h => apart.last h, ?_, ?_⟩
    · rintro rfl
      exact apart.stops ⟨'<', rfl, by decide⟩
    · rintro rfl hhead
      exact apart.unextended '<' hhead (by decide)
  · trivial

theorem Aligned.faithful {tokens : List Token} (h : Aligned d tokens) : Faithful d tokens := by
  induction tokens with
  | nil => trivial
  | cons t rest ih =>
    obtain ⟨plain, apart⟩ := (begins_iff_apart h.1 (charsOf rest)).1 h.1
    exact ⟨keeps_of_apart plain apart, ih h.2⟩

/-! ## What the following tokens print -/

section Echo

variable {left next : List Char}

theorem Echo.exponent (h : Echo left next) (hleft : readExponent? left = none) :
    readExponent? next = none := by
  by_contra hne
  cases next with
  | nil => exact hne rfl
  | cons letter more =>
    have hletter : letter = 'e' ∨ letter = 'E' := by
      by_contra hnot
      exact hne (by simp [readExponent?, hnot])
    have hdigits : ∀ {left tail : List Char}, Echo left tail → ¬ Stops Char.isDigit tail →
        ¬ Stops Char.isDigit left := fun h hnot hstops => hnot (h.stops_digit hstops)
    have hmore := (readExponent?_cons_ne_none hletter).1 hne
    cases h with
    | @same c left more h =>
      refine (readExponent?_cons_ne_none hletter).2 ?_ hleft
      rcases hmore with hmore | ⟨sign, tail, rfl, hsign, htail⟩
      · exact Or.inl (hdigits h hmore)
      · have hsame : sign ∉ respelled := by
          rcases hsign with rfl | rfl <;> decide
        obtain ⟨rest, rfl, hrest⟩ := h.same_head hsame
        exact Or.inr ⟨sign, rest, rfl, hsign, hdigits hrest htail⟩
    | blank kind wide => cases kind <;> rcases hletter with h | h <;> exact absurd h (by decide)
    | @letter c mark left more known quote =>
      -- a quote is neither a digit nor a sign
      have hmarks : ∀ m ∈ ['\'', '"', '&'], m.isDigit = false ∧ m ≠ '+' ∧ m ≠ '-' := by decide
      have hmark := hmarks mark quote
      rcases hmore with hmore | ⟨sign, tail, heq, hsign, -⟩
      · exact hmore (stops_cons.2 hmark.1)
      · obtain ⟨rfl, -⟩ := List.cons.inj heq
        rcases hsign with h | h
        · exact hmark.2.1 h
        · exact hmark.2.2 h
    | hexadecimal => rcases hletter with h | h <;> exact absurd h (by decide)
    | notEqual => rcases hletter with h | h <;> exact absurd h (by decide)
    | dropping => rcases hletter with h | h <;> exact absurd h (by decide)

theorem Echo.introduces {letter : Char} (h : Echo left next)
    (hleft : introducesLiteral d letter left = false) : introducesLiteral d letter next = false := by
  rw [Bool.eq_false_iff] at hleft ⊢
  refine mt (fun hnext => ?_) hleft
  rw [introducesLiteral_iff] at hnext ⊢
  -- the mark behind the letter is printed as it was read, so it was there before
  obtain ⟨kind, escapes, content, hquoted, rfl⟩ | ⟨content, hlower, rfl⟩ |
    ⟨content, hlower, rfl, rfl⟩ := hnext
  · obtain ⟨rest, rfl, -⟩ := h.same_head (by cases kind <;> decide)
    exact .inl ⟨kind, escapes, rest, hquoted, rfl⟩
  · obtain ⟨rest, rfl, -⟩ := h.same_head (by decide)
    exact .inr (.inl ⟨rest, hlower, rfl⟩)
  · obtain ⟨rest, rfl, hrest⟩ := h.same_head (by decide)
    obtain ⟨rest, rfl, -⟩ := hrest.same_head (by decide)
    exact .inr (.inr ⟨rest, hlower, rfl, rfl⟩)

theorem Echo.numberApart {digits : List Char} (h : Echo left next)
    (hleft : NumberApart d digits left) : NumberApart d digits next where
  digit := h.stops_digit hleft.digit
  suffix := h.head_ne (by decide) hleft.suffix
  fraction he hE hpoint := h.head_ne (by decide) (hleft.fraction he hE hpoint)
  exponent he hE := h.exponent (hleft.exponent he hE)
  hexadecimal h0 := h.head_ne (by decide) (hleft.hexadecimal h0)
  word he hE hd := by
    have hword := hleft.word he hE hd
    have hspace : ∀ kind : Blank, isWordPart d kind.char = false := by
      intro kind
      cases kind <;> cases d <;> rfl
    -- in MySQL a letter would make a word of the number
    cases h with
    | stop => exact Or.inr (Or.inr (stops_nil _))
    | same c rest => simpa [stops_cons] using hword
    | blank kind wide => exact Or.inr (Or.inr (stops_cons.2 (hspace kind)))
    | @letter c mark left more known quote =>
      rcases hword with hc | hc | hstops
      · obtain rfl : c = 'e' := Option.some.inj hc
        exact Or.inr (Or.inl rfl)
      · obtain rfl : c = 'E' := Option.some.inj hc
        exact Or.inr (Or.inl rfl)
      · have hletters : ∀ c ∈ literalLetters, isWordPart d c = true := by
          subst hd
          decide
        rw [stops_cons, hletters c known] at hstops
        exact Bool.noConfusion hstops
    | hexadecimal =>
      rcases hword with h | h | h
      · exact absurd (Option.some.inj h) (by decide)
      · exact absurd (Option.some.inj h) (by decide)
      · subst hd
        exact absurd (stops_cons.1 h) (by decide)
    | notEqual => exact Or.inr (Or.inr (stops_cons.2 (by cases d <;> rfl)))
    | dropping => exact Or.inr (Or.inr (stops_cons.2 (by cases d <;> rfl)))

private theorem allMarks_last : ∀ m ∈ allMarks, ∀ c ∈ m.toList.getLast?,
    c ∉ [' ', '\t', '\n', 'B', 'N', 'E', 'U', 'X'] := by
  decide

private theorem allMarks_less : ∀ m ∈ allMarks, m.toList.getLast? = some '<' →
    m.toList.dropLast = ['<'] ∨ ∃ longer ∈ allMarks, longer.toList = m.toList.dropLast ++ ['!'] := by
  decide

private theorem push_notMem_of_last {text : String} {c : Char}
    (hc : c ∈ [' ', '\t', '\n', 'B', 'N', 'E', 'U', 'X']) : text.push c ∉ allMarks := by
  intro hmem
  obtain ⟨m, hm, -, hlast⟩ := push_mem_allMarks hmem
  exact allMarks_last m hm c hlast hc

theorem Echo.operatorApart {text : String} (h : Echo left next)
    (hleft : OperatorApart d text left) (hkeeps : Keeps d (.operator text) next) :
    OperatorApart d text next where
  unextended := by
    rintro c hc
    obtain ⟨next, rfl⟩ := List.head?_eq_some_iff.1 hc
    -- what is printed instead of something else continues no operator, except the first character of <>
    cases h with
    | same c rest => exact hleft.unextended c rfl
    | blank kind wide => exact push_notMem_of_last (by cases kind <;> decide)
    | letter known quote =>
      have hupper : ∀ c ∈ literalLetters,
          c.toUpper ∈ [' ', '\t', '\n', 'B', 'N', 'E', 'U', 'X'] := by decide
      exact push_notMem_of_last (hupper _ known)
    | hexadecimal => exact push_notMem_of_last (by decide)
    | notEqual =>
      intro hmem
      obtain ⟨m, hm, hdrop, hlast⟩ := push_mem_allMarks hmem
      rcases allMarks_less m hm hlast with hless | ⟨longer, hlonger, htext⟩
      · have htext : text = "<" := String.toList_injective (hdrop.symm.trans hless)
        exact hkeeps.2.2 htext rfl
      · refine hleft.unextended '!' rfl ?_
        have hpush : text.push '!' = longer := by
          apply String.toList_injective
          rw [htext, hdrop, String.toList_push]
        rw [hpush]
        exact hlonger
    | dropping => exact hleft.unextended '?' rfl
  stops hmark := h.stops_operatorPart (hleft.stops hmark)
  last := hkeeps.1
  blank hother := by
    have hspace := hleft.blank hother
    rintro c hc
    obtain ⟨next, rfl⟩ := List.head?_eq_some_iff.1 hc
    cases h with
    | same c rest => exact hspace c rfl
    | blank kind wide => exact absurd (hspace _ rfl) wide
    | letter known quote =>
      obtain rfl := hspace _ rfl
      exact absurd known (by decide)
    | hexadecimal => exact absurd (hspace _ rfl) (by decide)
    | notEqual => exact absurd (hspace _ rfl) (by decide)
    | dropping => exact absurd (hspace _ rfl) (by decide)

/-- A text that does not run into a token goes on not running into it as it is printed, when the
token keeps itself. -/
theorem Echo.apart {t : Token} (h : Echo left next) (plain : Plain d t) (hleft : Apart d t left)
    (hkeeps : Keeps d t next) : Apart d t next := by
  cases t with
  | word value quote =>
    cases quote with
    | none =>
      have hword : WordApart d value.toList left := hleft
      exact ⟨h.stops_wordPart hword.stops,
        fun letter hl hvalue => h.introduces (hword.introduces letter hl hvalue)⟩
    | some quote =>
      refine h.head_ne ?_ hleft
      rcases opensName_cases plain with rfl | rfl | rfl <;> decide
  | number digits long =>
    intro hlong
    exact h.numberApart (hleft hlong)
  | literal kind content =>
    refine h.head_ne ?_ hleft
    cases kind <;> decide
  | dollarQuoted => trivial
  | placeholder text =>
    unfold Apart at hleft ⊢
    dsimp only at hleft ⊢
    split
    · rename_i hquestion
      rw [if_pos hquestion] at hleft
      exact h.stops_numeric hleft
    · rename_i hquestion
      rw [if_neg hquestion] at hleft
      exact ⟨h.stops_tagPart hleft.1, h.head_ne (by decide) hleft.2⟩
  | punctuation mark =>
    cases mark with
    | period => exact h.stops_digit hleft
    | colon =>
      have hcolon : ∀ c : Char, c ∉ respelled → left.head? ≠ some c → ∀ a ∈ next.head?, a ≠ c := by
        rintro c hc hne a ha rfl
        exact h.head_ne hc hne ha
      intro c hc
      exact ⟨hcolon ':' (by decide) (fun hl => (hleft ':' hl).1 rfl) c hc,
        hcolon '=' (by decide) (fun hl => (hleft '=' hl).2 rfl) c hc⟩
    | _ => trivial
  | operator text => exact h.operatorApart hleft hkeeps
  | lineComment mark content =>
    rcases hleft with rfl | hbreak
    · cases h
      exact Or.inl rfl
    · exact Or.inr hbreak
  | _ => trivial

end Echo

/-! ## Lists of tokens -/

/-- A token that was read is read back from what it prints before the text that the following tokens
print, when it keeps itself. -/
theorem begins_of_keeps {cs left next : List Char} {t : Token} (h : Begins d cs t left)
    (hecho : Echo left next) (hkeeps : Keeps d t next) : Begins d (t.chars ++ next) t next := by
  refine (begins_iff_apart h next).2 ?_
  cases cs with
  | nil => exact h.elim
  | cons c rest =>
    have hsource := (scan_outcome h).source
    generalize c :: rest = cs at hsource
    cases hsource with
    | exact plain apart => exact ⟨plain, hecho.apart plain apart hkeeps⟩
    | blank => exact ⟨trivial, trivial⟩
    | @literal kind letter marks content value left letters known apart printed =>
      refine ⟨?_, hecho.head_ne (by cases kind <;> decide) apart⟩
      cases kind with
      | escaped => exact hkeeps
      | unicode => exact hkeeps
      | _ => trivial
    | hexadecimal => exact ⟨trivial, hkeeps⟩
    | notEqual =>
      have hadmits := admits_of_longest (d := d) "<>" (by decide) (by decide) next
      exact ⟨trivial, hadmits.apart (fun _ => hkeeps.2.1 rfl) (by decide)⟩
    | dropping =>
      rw [hkeeps.1 rfl]
      exact ⟨trivial, apart_nil _⟩

theorem Reads.aligned_of_faithful {cs : List Char} {tokens more : List Token}
    (h : Reads d cs (tokens ++ more)) (hfaithful : Faithful d tokens) : Aligned d tokens := by
  induction tokens generalizing cs with
  | nil => trivial
  | cons t rest ih =>
    obtain _ | ⟨hfirst, hrest⟩ := h
    exact ⟨begins_of_keeps hfirst hrest.echo hfaithful.1, ih hrest hfaithful.2⟩

/-- The tokens at the head of a text are read back from what they print exactly when they are
faithful. -/
theorem Reads.tokenize_textOf_iff {cs : List Char} {tokens more : List Token}
    (h : Reads d cs (tokens ++ more)) :
    tokenize d (textOf tokens) = .ok tokens ↔ Faithful d tokens := by
  rw [tokenize_textOf]
  exact ⟨Aligned.faithful, h.aligned_of_faithful⟩

end Token

end ReportSql
