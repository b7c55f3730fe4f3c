import Provenance.Proofs.Initialization.Staging
import Provenance.Proofs.Rows.Bound
import Provenance.Proofs.Rows.Resolved

/-!
# Checking a definition

What materializing a table may fail with. The definition of a derived table can be checked without looking at
any row (`Derive.check`, `Derive.check_headers`). If the check fails then so does the table, with the same
error (`Derive.draft_of_check`). If not, all columns that are read are there, and only computing with payloads
may fail (`Derive.failsOnly_draft`).
-/

namespace Provenance

/-- An error that tells of the definitions or the records of a table. -/
def Error.Definitional (e : Error) : Prop := e.Computational ∨ e.Unresolved

/-! ## Planned columns -/

namespace Plan

variable {c : Catalog} {policy : SpeculativePolicy} {sources : List SourceTable} {table : String}
  {col : Column} {cols : List Column} {plan : List ColumnPlan} {e : Expr}

theorem failsOnly_missingCube? : (missingCube? c sources e).FailsOnly Error.Unresolved := by
  unfold missingCube?
  dsimp only
  split
  · exact .error trivial
  · exact .ok

/-- An expression is resolved if no column that it names is missing. -/
theorem resolved_of_missingCube? (hcolumns : ∀ name ∈ e.columns, anyHasColumn sources name = true)
    (h : missingCube? c sources e = .ok none) : e.Resolved c sources where
  leaves name hname := by
    rcases List.mem_append.1 hname with hname | hname
    · exact hcolumns name hname
    · obtain ⟨cube, hcube, rfl⟩ := List.mem_map.1 hname
      have hhas := missingCube?_eq_none h cube hcube
      unfold missingCube? at h
      dsimp only at h
      split at h
      · cases h
      · next hnone =>
        have hnone := List.find?_eq_none.1 hnone cube (mem_distinct.2 hcube)
        simpa [hhas] using hnone
  cubes := missingCube?_eq_none h

/-- What is computed is resolved. -/
theorem resolved_of_compute (h : columns c policy sources table cols = .ok plan)
    (hplanned : .compute col e ∈ plan) : e.Resolved c sources := by
  have hcolumn : column c policy sources table col = .ok (some (.compute col e)) :=
    (exists_of_mem_columns h hplanned).2
  apply resolved_of_missingCube? (anyHasColumn_of_column hcolumn (expr?_of_compute h hplanned))
  unfold column at hcolumn
  split at hcolumn
  · cases hcolumn
  · split at hcolumn
    · cases hcolumn
    · obtain ⟨missing, hmissing, hcolumn⟩ := Except.bind_eq_ok_iff.1 hcolumn
      cases missing with
      | none =>
        cases hcolumn
        exact hmissing
      | some cube =>
        cases policy with
        | abort | skip | default => cases hcolumn

theorem failsOnly_column (hcol : col.expr?.isSome) :
    (column c policy sources table col).FailsOnly Error.Unresolved := by
  unfold Column.expr? at hcol
  unfold column
  split
  · next hkind =>
    rw [hkind] at hcol
    cases hcol
  · split
    · exact .error trivial
    · apply failsOnly_missingCube?.bind
      intro missing _
      cases missing with
      | none => exact .ok
      | some cube =>
        cases policy with
        | abort => exact .error trivial
        | skip | default => exact .ok

theorem failsOnly_columns (hcols : ∀ col ∈ cols, col.expr?.isSome) :
    (columns c policy sources table cols).FailsOnly Error.Unresolved := by
  apply (List.failsOnly_mapM fun col hcol => failsOnly_column (hcols col hcol)).bind
  intro options _
  exact .ok

variable {a : Approach}

theorem failsOnly_checkFilter : (checkFilter c sources a).FailsOnly Error.Unresolved := by
  unfold checkFilter
  split
  · apply failsOnly_missingCube?.bind
    intro missing _
    cases missing with
    | none => exact .ok
    | some cube => exact .error trivial
  · exact .ok

/-- The predicate of a filter that is accepted is resolved. -/
theorem resolved_of_checkFilter {source : String} {predicate : Expr}
    (h : checkFilter c sources (.filter source predicate) = .ok ())
    (hcolumns : (Approach.filter source predicate).checkColumns sources = .ok ()) :
    predicate.Resolved c sources := by
  have hhas := Approach.anyHasColumn_of_checkColumns hcolumns
  apply resolved_of_missingCube? fun name hname => hhas name (mem_distinct.2 hname)
  obtain ⟨missing, hmissing, h⟩ := Except.bind_eq_ok_iff.1 h
  cases missing with
  | none => exact hmissing
  | some cube => cases h

end Plan

/-! ## The check of a definition -/

theorem Approach.failsOnly_checkColumns {a : Approach} {sources : List SourceTable} :
    (a.checkColumns sources).FailsOnly Error.Unresolved := by
  unfold checkColumns
  split
  · exact .error trivial
  · exact .ok

theorem failsOnly_sourceTable {sources : List SourceTable} {name : String} :
    (sourceTable sources name).FailsOnly Error.Computational := by
  unfold sourceTable
  split
  · exact .ok
  · exact .error trivial

theorem JoinStep.failsOnly_check {step : JoinStep} {joined : List String} :
    (step.check joined).FailsOnly Error.Definitional := by
  unfold check
  split
  · exact .error (.inl trivial)
  · split
    · exact .error (.inr trivial)
    · exact .ok

theorem JoinStep.failsOnly_checkAll {sources : List SourceTable} {steps : List JoinStep}
    {joined : List String} : (checkAll sources steps joined).FailsOnly Error.Definitional := by
  induction steps generalizing joined with
  | nil => exact .ok
  | cons step rest ih =>
    apply failsOnly_check.bind
    intro _ _
    apply (failsOnly_sourceTable.mono fun _ => .inl : Except.FailsOnly Error.Definitional _).bind
    intro _ _
    exact ih

theorem Approach.failsOnly_checkJoins {a : Approach} {sources : List SourceTable} :
    (a.checkJoins sources).FailsOnly Error.Definitional := by
  cases a with
  | filter | enrichment | group => exact .ok
  | join base steps =>
    apply (failsOnly_sourceTable.mono fun _ => .inl : Except.FailsOnly Error.Definitional _).bind
    intro _ _
    exact JoinStep.failsOnly_checkAll

/-- The table with its columns, but without its rows. -/
def SourceTable.header (t : SourceTable) : SourceTable := ⟨t.name, t.columns, []⟩

namespace Derive

/-- Plans the columns of a table and accepts its definition, if its sources have the columns that are read.
The rows of the sources do not matter. -/
def check (c : Catalog) (policy : SpeculativePolicy) (table : Table) (creation : Creation)
    (sources : List SourceTable) : Except Error (List ColumnPlan) := do
  Plan.checkFilter c sources creation.approach
  let plan ← Plan.columns c policy sources table.name (c.columnsOf table.id)
  creation.approach.checkColumns sources
  creation.approach.checkJoins sources
  pure plan

section

variable {c : Catalog} {policy : SpeculativePolicy} {table : Table} {creation : Creation}
  {sources : List SourceTable} {plan : List ColumnPlan}

theorem check_eq_ok_iff : check c policy table creation sources = .ok plan ↔
    Plan.checkFilter c sources creation.approach = .ok () ∧
      Plan.columns c policy sources table.name (c.columnsOf table.id) = .ok plan ∧
      creation.approach.checkColumns sources = .ok () ∧ creation.approach.checkJoins sources = .ok () := by
  unfold check
  simp only [Except.bind_eq_ok_iff, Except.pure_eq_ok_iff]
  constructor
  · rintro ⟨_, hfilter, plan, hplan, _, hcolumns, _, hjoins, rfl⟩
    exact ⟨hfilter, hplan, hcolumns, hjoins⟩
  · rintro ⟨hfilter, hplan, hcolumns, hjoins⟩
    exact ⟨(), hfilter, plan, hplan, (), hcolumns, (), hjoins, rfl⟩

theorem failsOnly_check (hwf : c.WellFormed) (ht : table ∈ c.tables)
    (hcreation : table.creation = some creation) :
    (check c policy table creation sources).FailsOnly Error.Definitional := by
  have hcols : ∀ col ∈ c.columnsOf table.id, col.expr?.isSome := by
    intro col hcol
    rw [hwf.expr?_isSome ht hcol, hcreation]
    rfl
  apply (Plan.failsOnly_checkFilter.mono fun _ => .inr : Except.FailsOnly Error.Definitional _).bind
  intro _ _
  apply ((Plan.failsOnly_columns hcols).mono fun _ => .inr : Except.FailsOnly Error.Definitional _).bind
  intro plan _
  apply (Approach.failsOnly_checkColumns.mono fun _ => .inr : Except.FailsOnly Error.Definitional _).bind
  intro _ _
  apply Approach.failsOnly_checkJoins.bind
  intro _ _
  exact .ok

theorem anyHasColumn_headers {name : ColumnName} :
    anyHasColumn (sources.map SourceTable.header) name = anyHasColumn sources name := by
  unfold anyHasColumn
  rw [List.any_map]
  rfl

theorem sourceTable_headers {name : String} :
    sourceTable (sources.map SourceTable.header) name =
      (sourceTable sources name).map SourceTable.header := by
  have hfind : (sources.map SourceTable.header).find? (fun t => t.name = name) =
      (sources.find? fun t => t.name = name).map SourceTable.header := List.find?_map ..
  unfold sourceTable
  rw [hfind]
  cases sources.find? fun t => t.name = name with
  | none => rfl
  | some t => rfl

theorem checkAll_headers {steps : List JoinStep} {joined : List String} :
    JoinStep.checkAll (sources.map SourceTable.header) steps joined =
      JoinStep.checkAll sources steps joined := by
  induction steps generalizing joined with
  | nil => rfl
  | cons step rest ih =>
    unfold JoinStep.checkAll
    rw [sourceTable_headers]
    cases sourceTable sources step.table with
    | error e => rfl
    | ok t => exact congrArg (bind (step.check joined)) (funext fun _ => ih)

/-- The check depends on the names and the columns of the sources only. -/
theorem check_headers : check c policy table creation (sources.map SourceTable.header) =
    check c policy table creation sources := by
  have hhas : anyHasColumn (sources.map SourceTable.header) = anyHasColumn sources :=
    funext fun _ => anyHasColumn_headers
  have hmissing : Plan.missingCube? c (sources.map SourceTable.header) = Plan.missingCube? c sources := by
    unfold Plan.missingCube?
    rw [hhas]
  have hfilter : Plan.checkFilter c (sources.map SourceTable.header) = Plan.checkFilter c sources := by
    unfold Plan.checkFilter
    rw [hmissing]
  have hcolumn : Plan.column c policy (sources.map SourceTable.header) =
      Plan.column c policy sources := by
    unfold Plan.column
    rw [hmissing, hhas]
  have hcolumns : ∀ a : Approach, a.checkColumns (sources.map SourceTable.header) = a.checkColumns sources := by
    intro a
    unfold Approach.checkColumns
    rw [hhas]
  have hjoins : ∀ a : Approach, a.checkJoins (sources.map SourceTable.header) = a.checkJoins sources := by
    intro a
    cases a with
    | filter | enrichment | group => rfl
    | join base steps =>
      unfold Approach.checkJoins
      dsimp only
      rw [sourceTable_headers]
      cases sourceTable sources base with
      | error e => rfl
      | ok t => exact checkAll_headers
  unfold check Plan.columns
  rw [hfilter, hcolumn, hcolumns, hjoins]

end

/-! ## Derived tables -/

section

variable {setup : Setup} {p : Populated} {table : Table} {creation : Creation}
  {sources : List SourceTable} {plan : List ColumnPlan} {frame : RowFrame}

/-- A table whose check fails is not made. -/
theorem draft_of_check {e : Error} (hs : Coherent sources)
    (h : check setup.catalog setup.settings.policy table creation sources = .error e) :
    draft setup p table creation sources = .error e := by
  rcases Except.bind_eq_error_iff.1 h with hfilter | ⟨_, hfilter, h⟩
  · exact Except.bind_eq_error_iff.2 (.inl hfilter)
  refine Except.bind_eq_error_iff.2 (.inr ⟨_, hfilter, ?_⟩)
  rcases Except.bind_eq_error_iff.1 h with hplan | ⟨plan, hplan, h⟩
  · exact Except.bind_eq_error_iff.2 (.inl hplan)
  refine Except.bind_eq_error_iff.2 (.inr ⟨plan, hplan, Except.bind_eq_error_iff.2 (.inl ?_)⟩)
  rcases Except.bind_eq_error_iff.1 h with hcolumns | ⟨_, hcolumns, h⟩
  · exact Except.bind_eq_error_iff.2 (.inl hcolumns)
  rcases Except.bind_eq_error_iff.1 h with hjoins | ⟨_, -, h⟩
  · exact Approach.createRows_of_checkJoins hs hcolumns hjoins
  · cases h

/-- A derived table passed its check, over sources that are as they are bound. -/
structure Checked (setup : Setup) (table : Table) (creation : Creation) (sources : List SourceTable)
    (plan : List ColumnPlan) : Prop where
  coherent : Coherent sources
  named : ∀ t ∈ sources, t.name ∈ creation.approach.sourceTables
  passed : check setup.catalog setup.settings.policy table creation sources = .ok plan

namespace Checked

variable (h : Checked setup table creation sources plan)
include h

theorem failsOnly_createRows :
    (creation.approach.createRows setup.catalog setup.functions sources).FailsOnly
      setup.functions.Incurs := by
  obtain ⟨hfilter, -, hcolumns, hjoins⟩ := check_eq_ok_iff.1 h.passed
  apply Approach.failsOnly_createRows h.coherent h.named _ hcolumns hjoins
  intro source predicate happroach
  rw [happroach] at hfilter hcolumns
  exact Plan.resolved_of_checkFilter hfilter hcolumns

/-- What is computed in a frame of the table does not meet a column that is missing. -/
theorem failsOnly_evaluate {frames : List RowFrame} {col : Column} {e : Expr}
    (hframes : creation.approach.createRows setup.catalog setup.functions sources = .ok frames)
    (hframe : frame ∈ frames) (hplanned : .compute col e ∈ plan) :
    (e.evaluate setup.catalog setup.functions frame.scope).FailsOnly setup.functions.Incurs :=
  have hplan := (check_eq_ok_iff.1 h.passed).2.1
  (Plan.resolved_of_compute hplan hplanned).failsOnly_evaluate h.coherent h.named
    (Approach.spans_of_mem_createRows hframes hframe)

end Checked

theorem partition_ne_nil {frames : List RowFrame} {c : Catalog} {functions : Functions} {a : Approach}
    (hframes : a.createRows c functions sources = .ok frames) (hframe : frame ∈ frames) :
    frame.scope.partition ≠ [] := by
  have hkeyed := (Approach.framed_of_mem_createRows hframes hframe).keyed
  cases hscope : frame.scope with
  | row b => exact List.cons_ne_nil b []
  | group key columns members =>
    rw [hscope] at hkeyed
    obtain ⟨first, rest, rfl, -⟩ := hkeyed
    exact List.cons_ne_nil first rest

/-- A value that was computed in a frame is never refused. -/
theorem failsOnly_computed {c : Catalog} {functions : Functions} {id : Id} {row : Row} {col : Column} {e : Expr}
    {result : Evaluated} {P : Error → Prop} (hrow : row.populated = p.id) (horigin : row.origin = .derived)
    (htable : col.table = p.table) (hkind : col.expr?.isSome) (hscope : frame.scope.partition ≠ [])
    (h : e.evaluate c functions frame.scope = .ok result) :
    (computed id p row col e result).FailsOnly P := by
  have hread : ¬(e.parameterCount ≠ 0 ∧ result.sources.isEmpty ∧ !result.nullExtended) := by
    rintro ⟨hparameters, hsources, hnull⟩
    rcases Expr.read_of_evaluate hscope hparameters h with hread | hread
    · exact hread (List.isEmpty_iff.1 hsources)
    · rw [hread] at hnull
      cases hnull
  unfold computed
  rw [if_neg hread, create_of_computed hrow horigin htable hkind]
  exact .ok

/-- A table that passed its check fails only in computing. -/
theorem failsOnly_draft (h : Checked setup table creation sources plan) (horigin : p.origin = .derived)
    (htable : p.table = table.id) :
    (draft setup p table creation sources).FailsOnly setup.functions.Incurs := by
  obtain ⟨hfilter, hplan, -, -⟩ := check_eq_ok_iff.1 h.passed
  apply (Except.FailsOnly.of_eq_ok hfilter : Except.FailsOnly setup.functions.Incurs _).bind
  intro _ _
  apply (Except.FailsOnly.of_eq_ok hplan : Except.FailsOnly setup.functions.Incurs _).bind
  intro plan' hplan'
  cases hplan.symm.trans hplan'
  apply h.failsOnly_createRows.bind
  intro frames hframes
  have hvalue : ∀ frame ∈ frames, ∀ planned ∈ plan, ∀ (n k : Nat),
      (value setup.catalog setup.functions p (.create (Draft.rowId p.id.number plan.length n) p n) frame
        (Draft.valueId p.id.number plan.length n k) planned).FailsOnly setup.functions.Incurs := by
    intro frame hframe planned hplanned n k
    obtain ⟨hcol, hcolumn⟩ := Plan.exists_of_mem_columns hplan hplanned
    have hcoltable : planned.column.table = p.table :=
      (Catalog.mem_columnsOf.1 hcol).2.trans htable.symm
    have hkind := (Plan.column_of_column hcolumn).2
    cases planned with
    | fill col literal =>
      refine Except.FailsOnly.bind ?_ fun _ _ => .ok
      exact .of_eq_ok (create_of_computed rfl horigin hcoltable hkind)
    | compute col e =>
      apply (h.failsOnly_evaluate hframes hframe hplanned).bind
      intro result hresult
      exact failsOnly_computed rfl horigin hcoltable hkind (partition_ne_nil hframes hframe) hresult
  have hrow : ∀ frame ∈ frames.zipIdx,
      (row setup.catalog setup.functions p plan p.id.number frame).FailsOnly setup.functions.Incurs := by
    intro frame hframe
    apply (List.failsOnly_mapM fun planned hplanned => hvalue _ (List.fst_mem_of_mem_zipIdx hframe) _
      (List.fst_mem_of_mem_zipIdx hplanned) _ _).bind
    intro values _
    exact .ok
  apply (List.failsOnly_mapM hrow).bind
  intro rows _
  exact .ok

end

end Derive

/-! ## Supplied tables -/

namespace Populate

variable {setup : Setup} {p : Populated} {table : Table} {col : Column}

theorem failsOnly_payload {n : Nat} {type : DataType} {r : SourceRecord} :
    (payload table col n type r).FailsOnly Error.Definitional := by
  have hcoerce : (Scalar.coerce type ((r.lookup col.name).getD .null)).FailsOnly Error.Definitional := by
    unfold Scalar.coerce
    split
    · exact .ok
    · exact .error (.inl trivial)
  unfold payload
  split
  · exact .error (.inl trivial)
  · exact hcoerce

theorem failsOnly_checkFields {strict : Bool} {cols : List Column} {r : SourceRecord} :
    (checkFields strict table cols r).FailsOnly Error.Definitional := by
  unfold checkFields
  split
  · split
    · exact .error (.inr trivial)
    · exact .ok
  · exact .ok

theorem failsOnly_value {row : Row} {r : SourceRecord} {id : Id} (hrow : row.populated = p.id)
    (horigin : row.origin = .database) (htable : col.table = p.table) (hkind : col.expr? = none) :
    (value table p row r id col).FailsOnly Error.Definitional := by
  cases hfield : col.kind with
  | function text e references =>
    unfold Column.expr? at hkind
    rw [hfield] at hkind
    cases hkind
  | field type =>
    unfold value fieldType Value.create
    simp only [hfield, hrow, htable, horigin, ne_eq, not_true_eq_false, if_false]
    have hpayload : (payload table col row.number type r).FailsOnly Error.Definitional := failsOnly_payload
    apply hpayload.bind
    intro v _
    split
    · exact .ok
    · exact .error (.inl trivial)

/-- A supplied table fails only over what its records hold. -/
theorem failsOnly_draft (hwf : setup.catalog.WellFormed) (ht : table ∈ setup.catalog.tables)
    (hsupplied : table.creation = none) (horigin : p.origin = .database) (htable : p.table = table.id) :
    (draft setup p table).FailsOnly Error.Definitional := by
  have hvalue : ∀ col ∈ setup.catalog.columnsOf table.id, ∀ (n : Nat) (r : SourceRecord) (rowId id : Id),
      (value table p (.create rowId p n) r id col).FailsOnly Error.Definitional := by
    intro col hcol n r rowId id
    have hkind := hwf.expr?_isSome ht hcol
    rw [hsupplied] at hkind
    exact failsOnly_value rfl horigin ((Catalog.mem_columnsOf.1 hcol).2.trans htable.symm)
      (Option.not_isSome_iff_eq_none.1 (by simp [hkind]))
  refine Except.FailsOnly.bind (List.failsOnly_mapM fun record _ => ?_) fun _ _ => .ok
  apply failsOnly_checkFields.bind
  intro _ _
  refine Except.FailsOnly.bind ?_ fun _ _ => .ok
  exact List.failsOnly_mapM fun col hcol => hvalue _ (List.fst_mem_of_mem_zipIdx hcol) _ _ _ _

end Populate

end Provenance
