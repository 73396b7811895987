import Mathlib
import ReportSql.Proofs.Token.Readers
import ReportSql.Sqlite.Token

/-!
# Steps of the database's scanner

What an SQLite database reads in one step: a word, a number, a quoted name or
literal, a comment, a symbol or a named parameter, each with the characters that may
come after it.

## Main definitions

* `Sqlite.isBareWord`, `Sqlite.isDecimal`, `Sqlite.paired`, `Sqlite.isLoose` - the texts of such parts

## Main results

* `Sqlite.scan_word`, `Sqlite.scan_number`, `Sqlite.scan_loose`, `Sqlite.scan_parameter` - one step
-/

namespace ReportSql

open Token (Stops stops_nil stops_cons takeWhile_append_stops dropWhile_append_stops)

namespace Sqlite

/-- The spelling of a parameter. -/
def Token.spelling? : Token → Option String
  | .parameter spelling => some spelling
  | _ => none

/-! ## Characters -/

/-- The blanks of the database. -/
def spaces : List Char := [' ', '\t', '\n', '\x0b', '\x0c', '\r']

theorem isSpace_iff {c : Char} : isSpace c = true ↔ c ∈ spaces := by
  constructor
  · intro h
    have hcases : c = ' ' ∨ 9 ≤ c.toNat ∧ c.toNat ≤ 13 := by
      simp only [isSpace, Bool.or_eq_true, Bool.and_eq_true, decide_eq_true_eq, beq_iff_eq] at h
      exact h
    rcases hcases with rfl | ⟨hleast, hgreatest⟩
    · decide
    · rw [← Char.ofNat_toNat c]
      generalize c.toNat = n at *
      interval_cases n <;> decide
  · intro h
    fin_cases h <;> rfl

/-- The decimal digits. -/
def digits : List Char := "0123456789".toList

theorem mem_digits {c : Char} (h : c.isDigit = true) : c ∈ digits := by
  have hcases : 48 ≤ c.toNat ∧ c.toNat ≤ 57 := by
    simp only [Char.isDigit, Bool.and_eq_true, decide_eq_true_eq] at h
    exact h
  obtain ⟨hleast, hgreatest⟩ := hcases
  rw [← Char.ofNat_toNat c]
  generalize c.toNat = n at *
  interval_cases n <;> decide

/-- Two characters that a class tells apart. -/
theorem ne_of_class {p : Char → Bool} {c d : Char} (hc : p c = true) (hd : p d = false) : c ≠ d := by
  rintro rfl
  rw [hc] at hd
  exact Bool.noConfusion hd

theorem isSpace_eq_false {p : Char → Bool} {c : Char} (hc : p c = true) (hp : spaces.any p = false) :
    isSpace c = false :=
  Bool.eq_false_iff.2 fun hspace => absurd hc (List.any_eq_false.1 hp c (isSpace_iff.1 hspace))

theorem startsSpace_eq_false {c : Char} (h : isSpace c = false) : startsSpace c = false := by
  rw [startsSpace, h, Bool.false_and]

/-- The characters that are read one by one, unless they open a comment or a number with the character
after them. -/
def isLoose (c : Char) : Bool :=
  !(isSpace c || isWordPart c || "'\"\x60[?:@#".toList.contains c)

/-- Whether a character opens a comment or a number with the character after it. -/
def opensWith (c : Char) (next : Option Char) : Bool :=
  (c == '-' && next == some '-') || (c == '/' && next == some '*') ||
    (c == '.' && next.any Char.isDigit)

/-- A word outside of quotes. -/
def isBareWord : List Char → Bool
  | [] => false
  | c :: cs => isWordStart c && c != '\ufeff' && cs.all isWordPart

/-- Whether a quote only stands in a text doubled. -/
def paired (quote : Char) : List Char → Bool
  | [] => true
  | [c] => c != quote
  | c :: d :: rest => if c = quote then d == quote && paired quote rest else paired quote (d :: rest)

/-- Whether a text starts with a digit, or with a point before one. -/
def opensNumber : List Char → Bool
  | '.' :: d :: _ => d.isDigit
  | c :: _ => c.isDigit
  | [] => false

/-- A decimal number that is read to its end. -/
def isDecimal (cs : List Char) : Bool :=
  opensNumber cs && (splitNumber cs).2.isEmpty

/-! ## One step of the reading -/

theorem scan_space {c : Char} {next : List Char} (hc : c ∈ spaces) (htab : c ≠ '\x0b') :
    scan (c :: next) = (none, next.dropWhile isSpace) := by
  fin_cases hc <;> first | rfl | exact absurd rfl htab

theorem scan_loose {c : Char} {next : List Char} (hc : isLoose c = true)
    (hnext : opensWith c next.head? = false) :
    ∃ token : Token, scan (c :: next) = (some token, next) ∧ token.spelling? = none := by
  have hne : ∀ d, isLoose d = false → c ≠ d := fun d => ne_of_class hc
  have hspace : startsSpace c = false := startsSpace_eq_false (isSpace_eq_false hc (by decide))
  have hstart : isWordStart c = false ∧ c.isDigit = false := by
    have hpart : isWordPart c = false := by
      simp only [isLoose, Bool.not_eq_true', Bool.or_eq_false_iff] at hc
      exact hc.1.2
    simp only [isWordPart, Bool.or_eq_false_iff] at hpart
    exact hpart.1
  simp only [opensWith, Bool.or_eq_false_iff, Bool.and_eq_false_imp, beq_iff_eq] at hnext
  obtain ⟨⟨hdash, hslash⟩, hpoint⟩ := hnext
  -- every rule but the last one needs a character of another class
  rw [scan, if_neg (by simp [hspace]), if_neg (hne _ (by decide)), if_neg (hne _ (by decide)),
    if_neg (by simp [hne '"' (by decide), hne '\x60' (by decide)]), if_neg (hne _ (by decide)),
    if_neg (by simp [hstart.1]), if_neg (by simpa [hstart.2] using hpoint),
    if_neg (hne _ (by decide)), if_neg (by simp [hne ':' (by decide), hne '@' (by decide),
      hne '$' (by decide), hne '#' (by decide)])]
  · split
    · exact ⟨_, rfl, rfl⟩
    · exact ⟨_, rfl, rfl⟩
  · rintro rest rfl rfl
    simpa using hdash rfl
  · rintro d rest rfl rfl
    simpa using hslash rfl
  · exact fun _ h => absurd h (hne _ (by decide))
  · exact fun _ h => absurd h (hne _ (by decide))

theorem scan_word {c : Char} {cs next : List Char} (hword : isBareWord (c :: cs) = true)
    (hnext : Stops isWordPart next) (hquote : next.head? ≠ some '\'') :
    scan (c :: (cs ++ next)) = (some (.word (String.ofList (c :: cs))), next) := by
  simp only [isBareWord, Bool.and_eq_true, bne_iff_ne, List.all_eq_true] at hword
  obtain ⟨⟨hstart, hbom⟩, hparts⟩ := hword
  have hne : ∀ d, isWordStart d = false → c ≠ d := fun d => ne_of_class hstart
  have hspace : startsSpace c = false := startsSpace_eq_false (isSpace_eq_false hstart (by decide))
  -- a quote after the word would make it the mark of a blob
  have hblob : ∀ rest, cs ++ next = '\'' :: rest → False := by
    intro rest heq
    cases cs with
    | nil =>
      rw [List.nil_append] at heq
      exact hquote (by rw [heq]; rfl)
    | cons d cs =>
      obtain ⟨rfl, -⟩ := List.cons.inj heq
      exact absurd (hparts _ List.mem_cons_self) (by decide)
  rw [scan, if_neg (by simp [hspace]), if_neg hbom, if_neg (hne _ (by decide)),
    if_neg (by simp [hne '"' (by decide), hne '\x60' (by decide)]), if_neg (hne _ (by decide)),
    if_pos hstart, takeWhile_append_stops hparts hnext, dropWhile_append_stops hparts hnext]
  · exact fun _ h => absurd h (hne _ (by decide))
  · exact fun _ _ h => absurd h (hne _ (by decide))
  · exact fun rest _ => hblob rest
  · exact fun rest _ => hblob rest

theorem quoted?_paired {quote : Char} {content next : List Char} (h : paired quote content = true)
    (hnext : next.head? ≠ some quote) :
    ∃ name, quoted? quote (content ++ quote :: next) = some (name, next) := by
  -- quotes in the content come in pairs, so the one behind it ends the name
  fun_induction paired quote content with
  | case1 =>
    refine ⟨[], ?_⟩
    cases next with
    | nil => simp [quoted?]
    | cons d rest =>
      have hd : d ≠ quote := by simpa using hnext
      simp [quoted?, hd]
  | case2 c =>
    have hc : c ≠ quote := by simpa using h
    refine ⟨[c], ?_⟩
    cases next with
    | nil => simp [quoted?, hc]
    | cons d rest =>
      have hd : d ≠ quote := by simpa using hnext
      simp [quoted?, hc, hd]
  | case3 d rest ih =>
    obtain ⟨rfl, hrest⟩ : d = quote ∧ paired quote rest = true := by simpa using h
    obtain ⟨name, hname⟩ := ih hrest
    exact ⟨d :: name, by simp [quoted?, hname]⟩
  | case4 c d rest hc ih =>
    obtain ⟨name, hname⟩ := ih h
    rw [List.cons_append] at hname
    exact ⟨c :: name, by simp [quoted?, hc, hname]⟩

theorem quoted?_unclosed {quote : Char} {content : List Char} (h : paired quote content = true) :
    quoted? quote content = none := by
  fun_induction paired quote content with
  | case1 => rfl
  | case2 c =>
    have hc : c ≠ quote := by simpa using h
    simp [quoted?, hc]
  | case3 d rest ih =>
    obtain ⟨rfl, hrest⟩ : d = quote ∧ paired quote rest = true := by simpa using h
    simp [quoted?, ih hrest]
  | case4 c d rest hc ih => simp [quoted?, hc, ih h]

theorem opensExponent_cons {e : Char} (he : (e == 'e' || e == 'E') = false) (rest : List Char) :
    opensExponent (e :: rest) = false := by
  rcases rest with _ | ⟨sign, _ | ⟨d, rest⟩⟩ <;> simp [opensExponent, he]

theorem opensExponent_of_stops {next : List Char} (h : Stops isWordPart next) :
    opensExponent next = false := by
  cases next with
  | nil => rfl
  | cons e rest =>
    refine opensExponent_cons ?_ rest
    rw [Bool.or_eq_false_iff, beq_eq_false_iff_ne, beq_eq_false_iff_ne]
    constructor <;> rintro rfl <;> exact absurd (stops_cons.1 h) (by decide)

theorem splitDigits_append (cs : List Char) {next : List Char}
    (hnext : Stops (fun c => c.isDigit || c == '_') next) :
    splitDigits Char.isDigit (cs ++ next) =
      ((splitDigits Char.isDigit cs).1, (splitDigits Char.isDigit cs).2 ++ next) := by
  unfold splitDigits
  induction cs with
  | nil =>
    have htaken := takeWhile_append_stops (List.forall_mem_nil _) hnext
    have hleft := dropWhile_append_stops (List.forall_mem_nil _) hnext
    exact Prod.ext htaken hleft
  | cons c rest ih =>
    simp only [Prod.mk.injEq] at ih ⊢
    rw [List.cons_append, List.takeWhile_cons, List.takeWhile_cons, List.dropWhile_cons, List.dropWhile_cons,
      ih.1, ih.2]
    split <;> exact ⟨rfl, rfl⟩

/-- What is left of a text after a fraction. -/
def afterFraction : List Char → List Char
  | '.' :: tail => (splitDigits Char.isDigit tail).2
  | cs => cs

/-- What is left of a text after an exponent. -/
def afterExponent (cs : List Char) : List Char :=
  if opensExponent cs then (splitDigits Char.isDigit (cs.drop 2)).2 else cs

theorem splitNumber_rest (cs : List Char) :
    (splitNumber cs).2 = afterExponent (afterFraction (splitDigits Char.isDigit cs).2) := by
  have hexponent : ∀ written rest : List Char,
      (if opensExponent rest then
        (written ++ rest.take 2 ++ (splitDigits Char.isDigit (rest.drop 2)).1,
          (splitDigits Char.isDigit (rest.drop 2)).2)
      else (written, rest)).2 = afterExponent rest := by
    intro written rest
    unfold afterExponent
    split <;> rfl
  unfold splitNumber
  generalize splitDigits Char.isDigit cs = found
  obtain ⟨whole, rest⟩ := found
  dsimp only
  rw [hexponent]
  congr 1
  cases rest with
  | nil => rfl
  | cons c tail =>
    by_cases hc : c = '.'
    · subst hc
      rfl
    · unfold afterFraction
      split <;> simp_all

theorem afterFraction_append (cs : List Char) {next : List Char}
    (hnext : Stops (fun c => c.isDigit || c == '_') next) (hpoint : next.head? ≠ some '.') :
    afterFraction (cs ++ next) = afterFraction cs ++ next := by
  cases cs with
  | nil =>
    have hplain : afterFraction next = next := by
      unfold afterFraction
      split
      · exact absurd rfl hpoint
      · rfl
    exact hplain
  | cons c tail =>
    by_cases hc : c = '.'
    · subst hc
      exact congrArg Prod.snd (splitDigits_append tail hnext)
    · have hplain : ∀ rest, afterFraction (c :: rest) = c :: rest := by
        intro rest
        unfold afterFraction
        split
        · rename_i heq
          exact absurd (List.cons.inj heq).1 hc
        · rfl
      rw [List.cons_append, hplain, hplain, List.cons_append]

theorem afterExponent_append {cs next : List Char} (h : afterExponent cs = [])
    (hnext : Stops (fun c => c.isDigit || c == '_') next) (hnone : opensExponent next = false) :
    afterExponent (cs ++ next) = next := by
  unfold afterExponent at h ⊢
  cases hopens : opensExponent cs with
  | false =>
    rw [hopens] at h
    obtain rfl : cs = [] := h
    rw [List.nil_append, hnone]
    rfl
  | true =>
    obtain ⟨e, sign, more, rfl⟩ : ∃ e sign more, cs = e :: sign :: more := by
      rcases cs with _ | ⟨e, _ | ⟨sign, more⟩⟩
      · exact Bool.noConfusion hopens
      · exact Bool.noConfusion hopens
      · exact ⟨e, sign, more, rfl⟩
    -- the exponent is opened by the same characters
    have hkept : opensExponent (e :: sign :: more ++ next) = true := by
      cases more with
      | nil =>
        rw [opensExponent, Bool.and_eq_true] at hopens
        cases next <;> simp [opensExponent, hopens]
      | cons d more => exact hopens
    have hdone : (splitDigits Char.isDigit more).2 = [] := by
      rwa [hopens] at h
    have hrest := splitDigits_append more hnext
    rw [hdone] at hrest
    rw [hkept]
    exact congrArg Prod.snd hrest

/-- What follows a number that is read to its end is no part of it. -/
theorem splitNumber_append {cs next : List Char} (h : (splitNumber cs).2 = [])
    (hnext : Stops isWordPart next) (hpoint : next.head? ≠ some '.') :
    (splitNumber (cs ++ next)).2 = next := by
  have hdigits : Stops (fun c => c.isDigit || c == '_') next := by
    intro c hc
    have hpart := hnext c hc
    simp only [isWordPart, isWordStart, Bool.or_eq_false_iff] at hpart
    simp [hpart.1.2, hpart.1.1.1.2]
  rw [splitNumber_rest] at h ⊢
  rw [splitDigits_append cs hdigits, afterFraction_append _ hdigits hpoint]
  exact afterExponent_append h hdigits (opensExponent_of_stops hnext)

/-! ### Numbers -/

/-- The first character of a number: a digit, or a point before one. -/
def StartsNumber (c : Char) (rest : List Char) : Prop :=
  c.isDigit = true ∨ c = '.' ∧ rest.head?.any Char.isDigit = true

theorem startsNumber_of_opensNumber {c : Char} {cs : List Char} (h : opensNumber (c :: cs) = true)
    (next : List Char) : StartsNumber c (cs ++ next) := by
  cases cs with
  | nil =>
    by_cases hc : c = '.'
    · subst hc
      exact absurd h (by decide)
    · exact .inl (by simpa [opensNumber, hc] using h)
  | cons d cs =>
    by_cases hc : c = '.'
    · subst hc
      exact .inr ⟨rfl, h⟩
    · exact .inl (by simpa [opensNumber, hc] using h)

theorem StartsNumber.ne {c : Char} {rest : List Char} (h : StartsNumber c rest) (d : Char)
    (hdigit : d.isDigit = false) (hd : d ≠ '.') : c ≠ d := by
  rintro rfl
  rcases h with hc | ⟨hc, -⟩
  · rw [hdigit] at hc
    exact Bool.noConfusion hc
  · exact hd hc

theorem scan_of_startsNumber {c : Char} {rest next : List Char} {token : Token}
    (h : StartsNumber c rest) (htoken : numberToken (c :: rest) = (token, next)) :
    scan (c :: rest) = (some token, next) := by
  have hspace : startsSpace c = false := by
    rcases h with hc | ⟨rfl, -⟩
    · exact startsSpace_eq_false (isSpace_eq_false hc (by decide))
    · decide
  have hstart : isWordStart c = false := by
    rcases h with hc | ⟨rfl, -⟩
    · exact Bool.eq_false_iff.2 fun hstart =>
        absurd hstart (List.any_eq_false.1 (by decide : digits.any isWordStart = false) c
          (mem_digits hc))
    · decide
  have hbegins : (c.isDigit || (c = '.' && rest.head?.any Char.isDigit)) = true := by
    rcases h with hc | ⟨rfl, hc⟩
    · rw [hc, Bool.true_or]
    · rw [hc]
      rfl
  rw [scan, if_neg (by simp [hspace]), if_neg (h.ne _ (by decide) (by decide)),
    if_neg (h.ne _ (by decide) (by decide)),
    if_neg (by simp [h.ne '"' (by decide) (by decide), h.ne '\x60' (by decide) (by decide)]),
    if_neg (h.ne _ (by decide) (by decide)), if_neg (by simp [hstart]), if_pos hbegins, htoken]
  · exact fun _ heq => absurd heq (h.ne _ (by decide) (by decide))
  · exact fun _ _ heq => absurd heq (h.ne _ (by decide) (by decide))
  · exact fun _ heq => absurd heq (h.ne _ (by decide) (by decide))
  · exact fun _ heq => absurd heq (h.ne _ (by decide) (by decide))

/-- Behind the first digit of a decimal number stands no letter of hexadecimal ones. -/
theorem second_of_decimal {cs next : List Char} (hend : (splitNumber ('0' :: cs)).2 = [])
    (hnext : Stops isWordPart next) {x : Char} {rest : List Char} (heq : cs ++ next = x :: rest) :
    (x == 'x' || x == 'X') = false := by
  rw [Bool.or_eq_false_iff, beq_eq_false_iff_ne, beq_eq_false_iff_ne]
  cases cs with
  | nil =>
    have hx : isWordPart x = false := hnext x (by rw [List.nil_append] at heq; rw [heq]; rfl)
    constructor <;> rintro rfl <;> exact absurd hx (by decide)
  | cons d cs =>
    obtain ⟨rfl, -⟩ := List.cons.inj heq
    -- the letter would be left over
    rw [splitNumber_rest, afterExponent] at hend
    constructor <;> rintro rfl <;>
      exact absurd hend (by simp [splitDigits, afterFraction, opensExponent_cons])

theorem numberToken_decimal {c : Char} {cs next : List Char} (hend : (splitNumber (c :: cs)).2 = [])
    (hnext : Stops isWordPart next) (hpoint : next.head? ≠ some '.') :
    ∃ token : Token, numberToken (c :: (cs ++ next)) = (token, next) ∧ token.spelling? = none := by
  have hhere : ∀ token, endingHere token next = (token, next) := by
    intro token
    cases next with
    | nil => rfl
    | cons d rest => simp [endingHere, stops_cons.1 hnext]
  have hsplit := splitNumber_append hend hnext hpoint
  rw [List.cons_append] at hsplit
  unfold numberToken
  extract_lets isHex isDigit
  have hdecimal : isHex = false := by
    dsimp only [isHex]
    split
    · rename_i x d rest heq
      obtain ⟨rfl, htail⟩ := List.cons.inj heq
      rw [second_of_decimal hend hnext htail, Bool.false_and]
    · rfl
  simp only [hdecimal, Bool.false_eq_true, if_false, hsplit, hhere]
  refine ⟨_, rfl, ?_⟩
  split <;> rfl

theorem scan_number {c : Char} {cs next : List Char} (h : isDecimal (c :: cs) = true)
    (hnext : Stops isWordPart next) (hpoint : next.head? ≠ some '.') :
    ∃ token : Token, scan (c :: (cs ++ next)) = (some token, next) ∧ token.spelling? = none := by
  rw [isDecimal, Bool.and_eq_true, List.isEmpty_iff] at h
  obtain ⟨hopens, hend⟩ := h
  obtain ⟨token, htoken, hspelling⟩ := numberToken_decimal hend hnext hpoint
  exact ⟨token, scan_of_startsNumber (startsNumber_of_opensNumber hopens next) htoken, hspelling⟩

theorem readName_plain {name next : List Char} (hname : ∀ c ∈ name, isWordPart c = true)
    (hnext : Stops (fun c => isWordPart c || c == '(' || c == ':') next) {fuel : Nat}
    (hfuel : name.length ≤ fuel) : readName fuel true (name ++ next) = (name, true, next) := by
  induction name generalizing fuel with
  | nil =>
    cases fuel with
    | zero => simp [readName]
    | succ fuel =>
      cases next with
      | nil => simp [readName]
      | cons c rest =>
        obtain ⟨⟨hpart, hopen⟩, hcolon⟩ := by simpa using stops_cons.1 hnext
        rw [List.nil_append, readName, if_neg (by simp [hpart]), if_neg (by simp [hopen])]
        exact fun _ hc => absurd hc hcolon
  | cons c name ih =>
    obtain ⟨fuel, rfl⟩ : ∃ n, fuel = n + 1 := ⟨fuel - 1, by rw [List.length_cons] at hfuel; omega⟩
    obtain ⟨hc, hrest⟩ := List.forall_mem_cons.1 hname
    rw [List.cons_append, readName, if_pos hc, ih hrest (by simpa using hfuel)]
    exact fun _ hcolon => absurd hcolon (ne_of_class hc (by decide))

theorem scan_parameter {name next : List Char} (hname : isBareWord name = true)
    (hnext : Stops (fun c => isWordPart c || c == '(' || c == ':') next) :
    scan (':' :: (name ++ next)) = (some (.parameter (String.ofList (':' :: name))), next) := by
  cases name with
  | nil => exact Bool.noConfusion hname
  | cons c cs =>
    simp only [isBareWord, Bool.and_eq_true, List.all_eq_true] at hname
    have hc : isWordPart c = true := by simp [isWordPart, hname.1.1]
    have hread : readName ((c :: cs) ++ next).length false ((c :: cs) ++ next) =
        (c :: cs, true, next) := by
      rw [List.cons_append, List.length_cons, readName, if_pos hc,
        readName_plain hname.2 hnext (by simp)]
      exact fun _ hcolon => absurd hcolon (ne_of_class hc (by decide))
    have hscan : scan (':' :: ((c :: cs) ++ next)) =
        (some (parameterToken ':' ((c :: cs) ++ next)).1,
          (parameterToken ':' ((c :: cs) ++ next)).2) := rfl
    rw [hscan, parameterToken, hread]

theorem bracketedToken_eq {content next : List Char} (h : ']' ∉ content) :
    bracketedToken (content ++ ']' :: next) =
      (.quotedName '[' (String.ofList content), next) := by
  have hcontent : ∀ c ∈ content, (c ≠ ']' : Bool) = true := by
    intro c hc
    rw [decide_eq_true_eq]
    rintro rfl
    exact h hc
  have hstop : Stops (fun c => (c ≠ ']' : Bool)) (']' :: next) := stops_cons.2 (by decide)
  rw [bracketedToken, takeWhile_append_stops hcontent hstop, dropWhile_append_stops hcontent hstop]

theorem blobToken_rest {content next : List Char} (h : '\'' ∉ content) :
    (blobToken (content ++ '\'' :: next)).2 = next ∧
      (blobToken (content ++ '\'' :: next)).1.spelling? = none := by
  have hcontent : ∀ c ∈ content, (c ≠ '\'' : Bool) = true := by
    intro c hc
    rw [decide_eq_true_eq]
    rintro rfl
    exact h hc
  have hstop : Stops (fun c => (c ≠ '\'' : Bool)) ('\'' :: next) := stops_cons.2 (by decide)
  rw [blobToken, takeWhile_append_stops hcontent hstop, dropWhile_append_stops hcontent hstop]
  dsimp only
  split <;> exact ⟨rfl, rfl⟩

theorem afterComment_append {content next : List Char}
    (h : afterComment (content ++ ['*', '/']) = []) :
    afterComment (content ++ '*' :: '/' :: next) = next := by
  -- the first end of the comment is the appended one, because nothing is left behind it
  generalize hcs : content ++ ['*', '/'] = cs at h
  fun_induction afterComment cs generalizing content with
  | case1 rest =>
    subst h
    rcases content with _ | ⟨a, _ | ⟨b, content⟩⟩
    · simp [afterComment]
    · simp at hcs
    · simp at hcs
  | case2 a rest hne ih =>
    cases content with
    | nil =>
      obtain ⟨rfl, rfl⟩ : '*' = a ∧ ['/'] = rest := by simpa using hcs
      exact absurd rfl (hne [] rfl)
    | cons b content =>
      obtain ⟨rfl, hrest⟩ := List.cons.inj hcs
      rw [List.cons_append, afterComment, ih hrest h]
      intro more hstar hmore
      rcases content with _ | ⟨d, content⟩
      · simp at hmore
      · obtain ⟨rfl, -⟩ := List.cons.inj hmore
        exact hne (content ++ ['*', '/']) hstar hrest.symm
  | case3 => simp at hcs

end Sqlite

end ReportSql
