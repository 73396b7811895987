import ReportSql.Compile.Basic
import ReportSql.Proofs.Query.Written
import ReportSql.Statement.Printer

/-!
# The bounds of a page

The text of a page ends with the number of rows to keep and the number of rows to
skip. Both are numbers of 64 bits, and both are printed as signed ones. Below 2⁶³ they
are the page size and the product of page and page size. From there on they are
printed as negative numbers, and a later page may start before an earlier one.

## Main definitions

* `PageBounds` - the two numbers of a page
* `PageBounds.ofPage` - the numbers that a page stands for
* `PageBounds.signed` - the numbers that are printed for them
* `PageBounds.text` - the clause of a page in a dialect

## Main results

* `pagedSql_bounds` - the clause of a page of a statement and of a compiled query
-/

namespace ReportSql

/-- The numbers of a page: how many rows it keeps, and how many it skips before them. -/
structure PageBounds where
  limit : ℤ
  offset : ℤ
deriving DecidableEq

namespace PageBounds

/-- The numbers that a page stands for. Pages count from zero, and no offset has more than 64 bits. -/
def ofPage (page pageSize : UInt64) : PageBounds :=
  ⟨pageSize.toNat, min (page.toNat * pageSize.toNat) (2 ^ 64 - 1)⟩

/-- The same 64 bits as signed numbers. -/
def signed (b : PageBounds) : PageBounds :=
  ⟨b.limit.bmod (2 ^ 64), b.offset.bmod (2 ^ 64)⟩

/-- Both numbers are below 2⁶³. -/
def IsSmall (b : PageBounds) : Prop :=
  b.limit < 2 ^ 63 ∧ b.offset < 2 ^ 63

/-- The clause of a page. -/
def text (d : Dialect) (b : PageBounds) : String :=
  match d with
  | .tsql =>
    "OFFSET " ++ toString b.offset ++ " ROWS FETCH NEXT " ++ toString b.limit ++ " ROWS ONLY"
  | _ => "LIMIT " ++ toString b.limit ++ " OFFSET " ++ toString b.offset

/-! ## Signed numbers -/

section bmod

variable {m n : ℤ} (hn : 0 ≤ n) (hbits : n < 2 ^ 64)
include hn hbits

theorem bmod_eq : n.bmod (2 ^ 64) = if n < 2 ^ 63 then n else n - 2 ^ 64 := by
  rw [Int.bmod_def]
  split <;> split <;> omega

theorem bmod_eq_self_iff : n.bmod (2 ^ 64) = n ↔ n < 2 ^ 63 := by
  rw [bmod_eq hn hbits]
  split <;> omega

theorem bmod_nonneg_iff : 0 ≤ n.bmod (2 ^ 64) ↔ n < 2 ^ 63 := by
  rw [bmod_eq hn hbits]
  split <;> omega

theorem bmod_le_bmod_iff (hm : 0 ≤ m) (hle : m ≤ n) :
    m.bmod (2 ^ 64) ≤ n.bmod (2 ^ 64) ↔ n < 2 ^ 63 ∨ 2 ^ 63 ≤ m := by
  rw [bmod_eq hn hbits, bmod_eq hm (hle.trans_lt hbits)]
  split <;> split <;> omega

end bmod

variable {page later pageSize : UInt64}

theorem limit_ofPage (page pageSize : UInt64) : (ofPage page pageSize).limit = pageSize.toNat :=
  rfl

theorem limit_bounds (page pageSize : UInt64) :
    0 ≤ (ofPage page pageSize).limit ∧ (ofPage page pageSize).limit < 2 ^ 64 := by
  have hsize := pageSize.toNat_lt
  dsimp only [ofPage]
  omega

theorem offset_bounds (page pageSize : UInt64) :
    0 ≤ (ofPage page pageSize).offset ∧ (ofPage page pageSize).offset < 2 ^ 64 := by
  have hproduct : (0 : ℤ) ≤ page.toNat * pageSize.toNat := by positivity
  dsimp only [ofPage]
  omega

theorem signed_eq_self_iff :
    (ofPage page pageSize).signed = ofPage page pageSize ↔ (ofPage page pageSize).IsSmall := by
  obtain ⟨hlimit, hlimitBits⟩ := limit_bounds page pageSize
  obtain ⟨hoffset, hoffsetBits⟩ := offset_bounds page pageSize
  have hfields : (ofPage page pageSize).signed = ofPage page pageSize ↔
      (ofPage page pageSize).limit.bmod (2 ^ 64) = (ofPage page pageSize).limit ∧
        (ofPage page pageSize).offset.bmod (2 ^ 64) = (ofPage page pageSize).offset :=
    Iff.of_eq (mk.injEq ..)
  rw [hfields, bmod_eq_self_iff hlimit hlimitBits, bmod_eq_self_iff hoffset hoffsetBits, IsSmall]

theorem signed_nonneg_iff :
    0 ≤ (ofPage page pageSize).signed.limit ∧ 0 ≤ (ofPage page pageSize).signed.offset ↔
      (ofPage page pageSize).IsSmall := by
  obtain ⟨hlimit, hlimitBits⟩ := limit_bounds page pageSize
  obtain ⟨hoffset, hoffsetBits⟩ := offset_bounds page pageSize
  unfold signed IsSmall
  dsimp only
  rw [bmod_nonneg_iff hlimit hlimitBits, bmod_nonneg_iff hoffset hoffsetBits]

theorem offset_mono (h : page ≤ later) :
    (ofPage page pageSize).offset ≤ (ofPage later pageSize).offset := by
  have hproduct := Nat.mul_le_mul_right pageSize.toNat (UInt64.le_iff_toNat_le.1 h)
  have hcast : (page.toNat * pageSize.toNat : ℤ) ≤ later.toNat * pageSize.toNat := by
    exact_mod_cast hproduct
  dsimp only [ofPage]
  omega

/-- A later page starts before an earlier one when its offset alone has come to the sign. -/
theorem signed_offset_le_iff (h : page ≤ later) :
    (ofPage page pageSize).signed.offset ≤ (ofPage later pageSize).signed.offset ↔
      (ofPage later pageSize).offset < 2 ^ 63 ∨ 2 ^ 63 ≤ (ofPage page pageSize).offset := by
  obtain ⟨hoffset, -⟩ := offset_bounds page pageSize
  obtain ⟨hlater, hlaterBits⟩ := offset_bounds later pageSize
  exact bmod_le_bmod_iff hlater hlaterBits hoffset (offset_mono h)

end PageBounds

/-! ## Texts -/

namespace Fragment

theorem bound_eq (value : UInt64) : bound value = integer ((value.toNat : ℤ).bmod (2 ^ 64)) :=
  congrArg integer (BitVec.toInt_eq_toNat_bmod value.toBitVec)

theorem toNat_saturatingMul (page pageSize : UInt64) :
    ((Query.saturatingMul page pageSize).toNat : ℤ) = (PageBounds.ofPage page pageSize).offset := by
  unfold Query.saturatingMul PageBounds.ofPage
  split
  · rename_i hsmall
    have hbits : (page.toNat * pageSize.toNat : ℤ) < 2 ^ 64 := by exact_mod_cast hsmall
    rw [UInt64.toNat_mul, Nat.mod_eq_of_lt hsmall, min_eq_left (by omega)]
    push_cast
    rfl
  · rename_i hlarge
    have hbits : (2 : ℤ) ^ 64 ≤ page.toNat * pageSize.toNat := by exact_mod_cast not_lt.1 hlarge
    have hlargest : (UInt64.ofNat (Nat.pow 2 64 - 1)).toNat = 2 ^ 64 - 1 := by decide
    rw [hlargest, min_eq_right (by omega)]
    norm_num

theorem bound_limit (page pageSize : UInt64) :
    bound pageSize = integer (PageBounds.ofPage page pageSize).signed.limit := by
  rw [bound_eq, PageBounds.signed, PageBounds.limit_ofPage]

theorem bound_offset (page pageSize : UInt64) : bound (Query.saturatingMul page pageSize) =
    integer (PageBounds.ofPage page pageSize).signed.offset := by
  rw [bound_eq, toNat_saturatingMul, PageBounds.signed]

theorem render_paging_of_bounds (d : Dialect) {limit offset : UInt64} {printed : PageBounds}
    (hlimit : bound limit = integer printed.limit) (hoffset : bound offset = integer printed.offset) :
    render d (paging d (some limit) (some offset)) = printed.text d := by
  cases d <;>
    simp [paging, hoffset, hlimit, render, String.join, Fragment.text, Keyword.text, PageBounds.text,
      String.append_assoc]

theorem render_paging (d : Dialect) (page pageSize : UInt64) :
    render d (paging d (Query.pageWindow page pageSize).limit
      (Query.pageWindow page pageSize).offset) = (PageBounds.ofPage page pageSize).signed.text d :=
  render_paging_of_bounds d (bound_limit page pageSize) (bound_offset page pageSize)

end Fragment

/-- The fragments of a page of a query: those of the query without a row window, the constant order if
it has none of its own, and the clause of the page. -/
theorem Query.fragments_paged (d : Dialect) (q : Query) (page pageSize : UInt64) :
    (q.paged page pageSize).fragments (.lines d) =
      ({ q with window := none } : Query).fragments (.lines d) ++
        ((if q.orderBy.isEmpty then constantOrder (.lines d) (some ⟨none, none⟩) else []) ++
          ([.newline] ++ Fragment.paging d (pageWindow page pageSize).limit
            (pageWindow page pageSize).offset)) := by
  obtain ⟨select, source, joins, condition, groupBy, orderBy, window⟩ := q
  unfold paged fragments
  cases orderBy <;> simp [windowFragments, constantOrder]

theorem Statement.exists_pagedSql (s : Statement) (tablePrefix : String) : ∃ opening, ∀ page pageSize,
    s.pagedSql tablePrefix page pageSize =
      opening ++ (PageBounds.ofPage page pageSize).signed.text s.dialect := by
  unfold pagedSql
  simp only [Fragment.render_paging]
  cases s.hasClause .limit with
  | true =>
    simp only [if_true, ← String.append_assoc]
    exact ⟨_, fun _ _ => rfl⟩
  | false =>
    simp only [Bool.false_eq_true, if_false, ← String.append_assoc]
    exact ⟨_, fun _ _ => rfl⟩

theorem CompiledQuery.exists_pagedSql (c : CompiledQuery) : ∃ opening, ∀ page pageSize,
    c.pagedSql page pageSize =
      opening ++ (PageBounds.ofPage page pageSize).signed.text c.dialect := by
  unfold pagedSql Query.sql
  simp only [Query.fragments_paged, Fragment.render_append, Fragment.render_paging,
    ← String.append_assoc]
  exact ⟨_, fun _ _ => rfl⟩

/-- Every page of a statement, and of a compiled query, is a fixed text with the clause of the page.
The printed numbers are those that the page stands for, and not negative, exactly when these are below
2⁶³; and a later page starts no earlier unless its offset is the first to reach 2⁶³. -/
theorem pagedSql_bounds (s : Statement) (c : CompiledQuery) (tablePrefix : String) :
    ∃ statement query : String, ∀ page pageSize : UInt64,
      let bounds := PageBounds.ofPage page pageSize
      s.pagedSql tablePrefix page pageSize = statement ++ bounds.signed.text s.dialect ∧
        c.pagedSql page pageSize = query ++ bounds.signed.text c.dialect ∧
        (bounds.signed = bounds ↔ bounds.IsSmall) ∧
        (0 ≤ bounds.signed.limit ∧ 0 ≤ bounds.signed.offset ↔ bounds.IsSmall) ∧
        ∀ later, page ≤ later →
          (bounds.signed.offset ≤ (PageBounds.ofPage later pageSize).signed.offset ↔
            (PageBounds.ofPage later pageSize).offset < 2 ^ 63 ∨ 2 ^ 63 ≤ bounds.offset) := by
  obtain ⟨statement, hstatement⟩ := s.exists_pagedSql tablePrefix
  obtain ⟨query, hquery⟩ := c.exists_pagedSql
  exact ⟨statement, query, fun page pageSize => ⟨hstatement page pageSize, hquery page pageSize,
    PageBounds.signed_eq_self_iff, PageBounds.signed_nonneg_iff,
    fun later hlater => PageBounds.signed_offset_le_iff hlater⟩⟩

/-- The query of a report on a table, without parameters. -/
def cityQuery : CompiledQuery where
  query := { Query.empty with
    select := [⟨.qualified "u" "city", none⟩], source := some (.table ⟨"user", some "u"⟩) }
  params := .empty
  warnings := []
  dialect := .tsql

/-- The second and the third page. -/
theorem pagedSql_bounds_third : ∃ s statement query,
    Statement.parse "SELECT u.id FROM {user} u" .sqlite = .ok s ∧
      s.pagedSql "" 1 10 = statement ++ "LIMIT 10 OFFSET 10" ∧
      s.pagedSql "" 2 10 = statement ++ "LIMIT 10 OFFSET 20" ∧
      cityQuery.pagedSql 1 10 = query ++ "OFFSET 10 ROWS FETCH NEXT 10 ROWS ONLY" ∧
      (1 : UInt64) ≤ 2 ∧
      (PageBounds.ofPage 1 10).signed.offset ≤ (PageBounds.ofPage 2 10).signed.offset := by
  obtain ⟨s, hparse, hdialect⟩ : ∃ s,
      Statement.parse "SELECT u.id FROM {user} u" .sqlite = .ok s ∧ s.dialect = .sqlite := by
    decide +kernel
  obtain ⟨statement, query, hpages⟩ := pagedSql_bounds s cityQuery ""
  obtain ⟨hsecond, hquery, -, -, hlater⟩ := hpages 1 10
  obtain ⟨hthird, -⟩ := hpages 2 10
  have htexts : (PageBounds.ofPage 1 10).signed.text .sqlite = "LIMIT 10 OFFSET 10" ∧
      (PageBounds.ofPage 2 10).signed.text .sqlite = "LIMIT 10 OFFSET 20" ∧
      (PageBounds.ofPage 1 10).signed.text .tsql = "OFFSET 10 ROWS FETCH NEXT 10 ROWS ONLY" := by
    decide +kernel
  rw [hdialect, htexts.1] at hsecond
  rw [hdialect, htexts.2.1] at hthird
  have hdialect : cityQuery.dialect = .tsql := rfl
  rw [hdialect, htexts.2.2] at hquery
  exact ⟨s, statement, query, hparse, hsecond, hthird, hquery, by decide,
    (hlater 2 (by decide)).2 (by decide)⟩

/-- The page whose offset is the first to reach 2⁶³ skips a negative number of rows, and so it starts
before the page that it follows. -/
theorem pagedSql_bounds_negative : ∃ s,
    Statement.parse "SELECT u.id FROM {user} u" .sqlite = .ok s ∧
      s.pagedSql "" 9223372036854775807 1 =
        "SELECT u.id FROM \"user\" u\nLIMIT 1 OFFSET 9223372036854775807" ∧
      s.pagedSql "" 9223372036854775808 1 =
        "SELECT u.id FROM \"user\" u\nLIMIT 1 OFFSET -9223372036854775808" ∧
      (PageBounds.ofPage 9223372036854775808 1).offset = 9223372036854775808 := by
  decide +kernel

end ReportSql
