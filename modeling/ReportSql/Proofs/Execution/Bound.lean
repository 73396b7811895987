import ReportSql.Proofs.Compile.Parameters
import ReportSql.Proofs.Execution.SameKey
import ReportSql.Proofs.Sqlite.Statements

/-!
# Bound parameters

The parameters that an SQLite database finds in the texts of a prepared query have values.
For a compiled report this holds always, for an author statement if the database reads it as
the program does. A restriction adds parameters under reserved names, and the author's own
are never among them.

## Main definitions

* `PreparedQuery.HasText` - the texts of a query
* `PreparedQuery.Bound` - every parameter in the texts has a value

## Main results

* `Executor.prepare_bound` - the parameters of every prepared query, with and without a restriction
-/

namespace ReportSql

open Token

variable {σ : Type}

/-! ## Texts with their values -/

namespace PreparedQuery

/-- The texts of a query: alone, to count its rows, and for one page. -/
inductive HasText (q : PreparedQuery) : String → Prop
  | alone : q.HasText q.sql
  | counting : q.HasText q.countSql
  | paged (page pageSize : UInt64) : q.HasText (q.pagedSql page pageSize)

/-- Every parameter in the texts of a query has a value. -/
def Bound (q : PreparedQuery) : Prop :=
  ∀ text, q.HasText text → Sqlite.Provided q.params text

/-- The parameters of a compiled query are those of its filters and of its scope. -/
theorem bound_compiled {q : CompiledQuery} {filters : List CompiledFilter} (hfirm : q.query.Firm)
    (hbinds : q.Binds filters) (hdialect : q.dialect = .sqlite) : (compiled q).Bound := by
  obtain ⟨halone, hcounting, hpaged⟩ := q.provided hfirm hbinds hdialect
  rintro text (_ | _ | ⟨page, pageSize⟩)
  · exact halone
  · exact hcounting
  · exact hpaged page pageSize

/-- The parameters of a legible statement are its placeholders and those of its conditions. -/
theorem bound_raw {sql tablePrefix : String} {s : Statement} {predicates : List Expr}
    {condition : List Token} {params : Params} (hparse : Statement.parse sql .sqlite = .ok s)
    (hlegible : Statement.Legible tablePrefix s.tokens)
    (hcondition : ∀ next, Soft next → Tame next condition)
    (hadds : Statement.Insertion.Adds condition { s with predicates }.insertion)
    (hnames : ∀ name, name ∈ s.placeholders ∨ name ∈ Statement.placeholdersIn condition →
      name ∈ params.names) : (raw { s with predicates } params tablePrefix).Bound := by
  have hprovided : ∀ text, s.Reads condition text → Sqlite.Provided params text := by
    rintro text ⟨printed, rfl, htame, hprinted⟩
    exact htame.provided fun name hname => hnames name (hprinted name hname)
  rintro text (_ | _ | ⟨page, pageSize⟩)
  · exact hprovided _ (Statement.reads_renderUntil hparse hlegible hcondition hadds le_rfl)
  · exact hprovided _ (Statement.reads_countSql hparse hlegible hcondition hadds)
  · exact hprovided _ (Statement.reads_pagedSql hparse hlegible hcondition hadds page pageSize)

end PreparedQuery

/-- The condition of a scope is what is added for it. -/
theorem Statement.adds_addPredicate {s : Statement} (hnone : s.predicates = []) (predicate : Expr) :
    Insertion.Adds (predicate.written s.dialect) (s.addPredicate predicate).insertion := by
  have hsql : (s.addPredicate predicate).predicateSql? = some (textOf (predicate.written s.dialect)) := by
    rw [Expr.textOf_written]
    simp [predicateSql?, addPredicate, hnone]
  unfold insertion
  rw [hsql]
  split <;> simp_all [Insertion.Adds]

namespace Executor

variable {e : Executor σ} {definition : ReportDefinition} {params : Params} {restriction : Restriction}
  {q : PreparedQuery}

/-! ## Restricted queries -/

/-- A restricted query is the one without the restriction and the values of the scope, whose names are
none of its own. -/
theorem prepare_units {units : UnitSet} (h : e.prepare definition params (.units units) = .ok q) :
    ∃ plain, e.prepare definition params .unrestricted = .ok plain ∧
      q.params = plain.params.insertAll (e.injector.predicate units).2 ∧
      ∀ name ∈ plain.params.names, Injector.isReserved name = false := by
  unfold prepare at h ⊢
  split at h
  · obtain ⟨s, bound, restricted, bound', hvalid, hbound, hscoped, rfl⟩ := prepareRaw_eq_ok h
    refine ⟨_, prepareRaw_unrestricted hvalid hbound, ?_⟩
    obtain ⟨hnone, -⟩ | ⟨_, hunits, hfree, -, rfl⟩ := Injector.injectStatement_eq_ok hscoped
    · exact Restriction.noConfusion hnone
    · obtain rfl := Restriction.units.inj hunits
      exact ⟨rfl, hfree⟩
  · obtain ⟨compiled, restricted, hcompiled, hscoped, rfl⟩ := prepareCompiled_eq_ok h
    refine ⟨_, prepareCompiled_unrestricted hcompiled, ?_⟩
    obtain ⟨hnone, -⟩ | ⟨_, hunits, hfree, rfl⟩ := Injector.injectQuery_eq_ok hscoped
    · exact Restriction.noConfusion hnone
    · obtain rfl := Restriction.units.inj hunits
      exact ⟨rfl, hfree⟩

/-! ## Bound parameters -/

theorem bound_of_prepareCompiled {config : QueryConfig} (hdialect : e.settings.database.dialect = .sqlite)
    (hw : e.whitelist.Built) (h : e.prepareCompiled config params restriction = .ok q) : q.Bound := by
  obtain ⟨compiled, restricted, hcompiled, hscoped, rfl⟩ := prepareCompiled_eq_ok h
  obtain ⟨filters, -, -, -, -, hbinds⟩ := Compiler.binds_of_compile hcompiled
  have hfirm := Injector.firm_injectQuery (Compiler.firm_of_compile hw hcompiled) hscoped
  obtain ⟨-, -, -, -, -, -, hsame, -⟩ := Compiler.compile_eq_ok hcompiled
  have hsqlite : restricted.dialect = .sqlite := by
    obtain ⟨-, rfl⟩ | ⟨_, -, -, rfl⟩ := Injector.injectQuery_eq_ok hscoped
    · exact hsame.trans hdialect
    · exact hsame.trans hdialect
  exact PreparedQuery.bound_compiled hfirm (Injector.injectQuery_binds hbinds hscoped) hsqlite

theorem bound_of_prepareRaw {sql : String} (hdialect : e.settings.database.dialect = .sqlite)
    (hlegible : ∀ s, e.validator.validate sql = .ok s →
      Statement.Legible e.settings.database.tablePrefix s.tokens)
    (h : e.prepareRaw sql params restriction = .ok q) : q.Bound := by
  obtain ⟨s, bound, restricted, bound', hvalid, hbound, hscoped, rfl⟩ := prepareRaw_eq_ok h
  have hparse : Statement.parse sql .sqlite = .ok s := hdialect ▸ (Validator.validate_eq_ok hvalid).2.1
  obtain ⟨hsqlite, hnone, -⟩ := Statement.parse_eq_ok hparse
  have hnames : ∀ name ∈ s.placeholders, name ∈ bound.names := by
    intro name hname
    obtain ⟨hsome, hvalue⟩ := Compiler.bindPlaceholders_eq_ok hbound name hname
    rw [NameMap.mem_names_iff, hvalue]
    exact Option.isSome_iff_exists.1 hsome
  obtain ⟨-, rfl, rfl⟩ | ⟨units, -, -, rfl, rfl⟩ := Injector.injectStatement_eq_ok hscoped
  · -- without a scope nothing is inserted
    have hplain : Statement.Insertion.Adds []
        { restricted with predicates := restricted.predicates }.insertion := by
      unfold Statement.insertion Statement.predicateSql?
      rw [hnone]
      trivial
    exact PreparedQuery.bound_raw hparse (hlegible _ hvalid) (fun _ _ => .nil) hplain
      fun name hname => hname.elim (hnames name) fun h => absurd h List.not_mem_nil
  · have hadds := Statement.adds_addPredicate hnone (e.injector.predicate units).1
    rw [hsqlite] at hadds
    refine PreparedQuery.bound_raw hparse (hlegible s hvalid) (e.injector.firm_predicate units) hadds
      fun name hname => NameMap.mem_names_insertAll.2 ?_
    have hscope := Fragment.placeholdersIn_written (e.injector.predicate units).1.fragments
    rw [Injector.names_predicate] at hscope
    exact hname.symm.imp (fun h => hscope ▸ h) (hnames name)

/-- Every parameter of a prepared query is bound, if its report is declarative or its statement is
legible. With a restriction to units, the query has the author's parameters, none of which has a
reserved name, and those of the scope. -/
theorem prepare_bound (hdialect : e.settings.database.dialect = .sqlite) (hw : e.whitelist.Built)
    (hlegible : ∀ sql s, definition.query = .rawSql sql → e.validator.validate sql = .ok s →
      Statement.Legible e.settings.database.tablePrefix s.tokens)
    (h : e.prepare definition params restriction = .ok q) :
    q.Bound ∧ ∀ units, restriction = .units units → ∃ plain,
      e.prepare definition params .unrestricted = .ok plain ∧ plain.Bound ∧
      q.params = plain.params.insertAll (e.injector.predicate units).2 ∧
      ∀ text, plain.HasText text → ∀ spelling ∈ Sqlite.parameters text,
        Injector.isReserved (Sqlite.parameterName spelling) = false := by
  have hbound : ∀ {restriction q}, e.prepare definition params restriction = .ok q → q.Bound := by
    intro restriction q h
    unfold prepare at h
    split at h
    · rename_i sql hsql
      exact bound_of_prepareRaw hdialect (fun s hvalid => hlegible sql s hsql hvalid) h
    · exact bound_of_prepareCompiled hdialect hw h
  refine ⟨hbound h, ?_⟩
  rintro units rfl
  obtain ⟨plain, hplain, hparams, hfree⟩ := prepare_units h
  exact ⟨plain, hplain, hbound hplain, hparams, fun text htext spelling hspelling =>
    hfree _ ((hbound hplain text htext).named spelling hspelling)⟩

/-- An executor over a database in a file. -/
def fileDesk : Executor Cache.MemoryStore :=
  .new { Settings.default with database := { DatabaseSettings.default with dialect := .sqlite } }
    Whitelist.builtin none

/-- The users of a city. -/
def usersOfCity : ReportDefinition :=
  .of (.custom 3) "Users" (.rawSql "SELECT u.id FROM {user} u WHERE u.city = :city")

theorem prepare_bound_city : fileDesk.settings.database.dialect = .sqlite ∧ fileDesk.whitelist.Built ∧
    ∃ q, fileDesk.prepare usersOfCity (NameMap.ofList [("city", .text "Delft")])
        (.units (UnitSet.ofList [5])) = .ok q ∧
      q.params.names = ["city", "scope_unit_0"] ∧ q.Bound := by
  obtain ⟨s, hvalid, hlegible⟩ : ∃ s, fileDesk.validator.validate
      "SELECT u.id FROM {user} u WHERE u.city = :city" = .ok s ∧
        Statement.Legible fileDesk.settings.database.tablePrefix s.tokens := by
    decide +kernel
  obtain ⟨q, hq, hnames⟩ : ∃ q, fileDesk.prepare usersOfCity (NameMap.ofList [("city", .text "Delft")])
      (.units (UnitSet.ofList [5])) = .ok q ∧ q.params.names = ["city", "scope_unit_0"] := by
    decide +kernel
  refine ⟨rfl, Whitelist.built_builtin, q, hq, hnames, ?_⟩
  refine (prepare_bound rfl Whitelist.built_builtin (fun sql other hsql hother => ?_) hq).1
  obtain rfl := ReportQuery.rawSql.inj hsql
  obtain rfl := Except.ok.inj (hvalid.symm.trans hother)
  exact hlegible

/-- A course by a parameter behind a dollar sign. -/
def courseById : ReportDefinition :=
  .of (.custom 4) "A course" (.rawSql "SELECT c.id FROM {course} c WHERE c.id = $id")

/-- A user by a reserved parameter behind a dollar sign. -/
def userOfUnit : ReportDefinition :=
  .of (.custom 5) "A user" (.rawSql "SELECT u.id FROM {user} u WHERE u.id = $scope_unit_0")

/-- The database finds parameters behind dollar signs, which are none for the program: they have no
value, or one of the scope. -/
theorem prepare_bound_dollar :
    (∃ q found, fileDesk.prepare courseById (NameMap.ofList [("id", .int 1)]) .unrestricted = .ok q ∧
      Sqlite.parameters q.sql = ["$id"] ∧ q.params.names = [] ∧
      Sqlite.slots q.sql = some found ∧ Sqlite.bind q.params found = .error (.missingParameter "id")) ∧
    ∃ plain q, fileDesk.prepare userOfUnit NameMap.empty .unrestricted = .ok plain ∧
      fileDesk.prepare userOfUnit NameMap.empty (.units (UnitSet.ofList [5])) = .ok q ∧
      "$scope_unit_0" ∈ Sqlite.parameters plain.sql ∧
      Injector.isReserved (Sqlite.parameterName "$scope_unit_0") = true ∧
      (q.params.get? "scope_unit_0").bind ParamValue.int? = some 5 := by
  constructor
  · obtain ⟨q, hq, hparameters, hnames, hslots⟩ : ∃ q,
        fileDesk.prepare courseById (NameMap.ofList [("id", .int 1)]) .unrestricted = .ok q ∧
          Sqlite.parameters q.sql = ["$id"] ∧ q.params.names = [] ∧
            Sqlite.slots q.sql = some [some "$id"] := by
      decide +kernel
    refine ⟨q, _, hq, hparameters, hnames, hslots, ?_⟩
    have hnone : q.params.get? "id" = none := by
      rw [NameMap.get?_eq_none_iff, hnames]
      exact List.not_mem_nil
    have hid : Sqlite.parameterName "$id" = "id" := by decide
    simp only [Sqlite.bind, Sqlite.bindFrom, Sqlite.bindSlot, hid, hnone]
  · obtain ⟨plain, hplain, hparameters⟩ : ∃ plain,
        fileDesk.prepare userOfUnit NameMap.empty .unrestricted = .ok plain ∧
          Sqlite.parameters plain.sql = ["$scope_unit_0"] := by
      decide +kernel
    obtain ⟨q, hq, hvalue⟩ : ∃ q,
        fileDesk.prepare userOfUnit NameMap.empty (.units (UnitSet.ofList [5])) = .ok q ∧
          (q.params.get? "scope_unit_0").bind ParamValue.int? = some 5 := by
      decide +kernel
    refine ⟨plain, q, hplain, hq, ?_, by decide, hvalue⟩
    rw [hparameters]
    exact List.mem_singleton_self _

end Executor

end ReportSql
