import Provenance.Initialization.Basic
import Provenance.Proofs.Store.Filled
import Provenance.Proofs.Traverse

/-!
# What a staged table is made of

A draft is determined by what is read for it, whatever identities it begins with: a supplied table by the
payloads of its records (`Populate.draft_eq`, `Populate.draft_eq_ok_iff`), a derived one by its frames and,
for every row and column, a payload and the values that were read for it (`Derive.draft_eq`,
`Derive.draft_eq_ok_iff`).
-/

namespace Provenance

/-- A materialized table is one of a table of the catalog. -/
structure Populated.Of (t : Table) (p : Populated) : Prop where
  table : p.table = t.id
  origin : p.origin = t.origin

theorem Populated.Of.database {t : Table} {p : Populated} (h : p.Of t) (hc : t.creation = none) :
    p.origin = .database := by
  rw [h.origin, Table.origin, hc]
  rfl

theorem Populated.Of.derived {t : Table} {p : Populated} {creation : Creation} (h : p.Of t)
    (hc : t.creation = some creation) : p.origin = .derived := by
  rw [h.origin, Table.origin, hc]
  rfl

/-! ## Supplied tables -/

namespace Populate

/-- A record holds a payload for a field. -/
def Holds (r : SourceRecord) (column : Column) (v : Scalar) : Prop :=
  ∃ type, column.kind = .field type ∧ Scalar.coerce type ((r.lookup column.name).getD .null) = .ok v ∧
    v.conforms type

/-- A record is accepted and holds the payloads of a row. -/
def Fills (strict : Bool) (table : Table) (columns : List Column) (r : SourceRecord)
    (row : List Scalar) : Prop :=
  checkFields strict table columns r = .ok () ∧ List.Forall₂ (Holds r) columns row

/-- What a record holds for a field, in the row with a number. -/
def held (table : Table) (n : Nat) (r : SourceRecord) (column : Column) : Except Error Scalar := do
  let type ← fieldType table column
  let v ← payload table column n type r
  if v.conforms type then pure v else .error (.mismatch (.field v type column.name))

/-- What a record holds for all fields, if it is accepted. -/
def supply (strict : Bool) (table : Table) (columns : List Column) (record : SourceRecord × Nat) :
    Except Error (List Scalar) := do
  checkFields strict table columns record.1
  columns.mapM (held table record.2 record.1)

variable {table : Table} {p : Populated} {columns : List Column} {r : SourceRecord}

theorem payload_eq_ok_iff {column : Column} {n : Nat} {type : DataType} {v : Scalar} :
    payload table column n type r = .ok v ↔
      Scalar.coerce type ((r.lookup column.name).getD .null) = .ok v := by
  unfold payload
  split
  · next h => simp [h]
  · exact Iff.rfl

theorem held_eq_ok_iff {column : Column} {n : Nat} {v : Scalar} :
    held table n r column = .ok v ↔ Holds r column v := by
  unfold held fieldType Holds
  simp only [Except.bind_eq_ok_iff, payload_eq_ok_iff]
  cases column.kind with
  | field type =>
    constructor
    · rintro ⟨_, ⟨⟩, payload, hpayload, h⟩
      split at h
      · next hconforms => cases h; exact ⟨type, rfl, hpayload, hconforms⟩
      · cases h
    · rintro ⟨_, ⟨⟩, hpayload, hconforms⟩
      exact ⟨type, rfl, v, hpayload, by simp only [hconforms, if_true]; rfl⟩
  | function =>
    constructor
    · rintro ⟨_, ⟨⟩, _⟩
    · rintro ⟨_, ⟨⟩, _⟩

theorem supply_eq_ok_iff {strict : Bool} {record : SourceRecord × Nat} {cells : List Scalar} :
    supply strict table columns record = .ok cells ↔ Fills strict table columns record.1 cells := by
  unfold supply Fills
  simp only [Except.bind_eq_ok_iff, List.mapM_eq_ok_iff, held_eq_ok_iff]
  exact ⟨fun ⟨_, h⟩ => h, fun h => ⟨(), h⟩⟩

theorem value_eq {row : Row} {id : Id} {column : Column} (hrow : row.populated = p.id)
    (horigin : row.origin = .database) (htable : column.table = p.table) :
    value table p row r id column = (held table row.number r column).map fun payload =>
      ⟨id, row.id, column.id, payload, .database⟩ := by
  unfold value held fieldType Value.create
  simp only [hrow, htable, horigin, ne_eq, not_true_eq_false, if_false]
  cases column.kind with
  | function => rfl
  | field type =>
    change (payload table column row.number type r >>= _) = (payload table column row.number type r >>= _).map _
    cases payload table column row.number type r with
    | error e => rfl
    | ok v =>
      change (if _ then _ else _) = Except.map _ (if _ then _ else _)
      split <;> rfl

theorem row_eq {strict : Bool} {n : Nat} (horigin : p.origin = .database)
    (hcolumns : ∀ column ∈ columns, column.table = p.table) :
    row strict table p columns p.id.number (r, n) =
      (supply strict table columns (r, n)).map fun cells => .filled p (columns.map Column.id) (cells, n) := by
  let row' := Row.create (Draft.rowId p.id.number columns.length n) p n
  let id' k := Draft.valueId p.id.number columns.length n k
  have hvalues : (columns.zipIdx.mapM fun q => value table p row' r (id' q.2) q.1) =
      (columns.mapM (held table n r)).map fun cells => (columns.zip cells).zipIdx.map fun q =>
        ⟨id' q.2, row'.id, q.1.1.id, q.1.2, .database⟩ := by
    rw [← List.mapM_zipIdx_fst (f := held table n r) 0]
    exact List.mapM_zipIdx_map (f := fun q => value table p row' r (id' q.2) q.1)
      (g := fun q => held table n r q.1)
      (h := fun column v k => ⟨id' k, row'.id, column.id, v, .database⟩)
      (fun _ hcolumn _ => value_eq rfl horigin (hcolumns _ hcolumn)) 0
  have hfilled : ∀ cells, FilledRow.filled p (columns.map Column.id) (cells, n) =
      ⟨row', (columns.zip cells).zipIdx.map fun q => ⟨id' q.2, row'.id, q.1.1.id, q.1.2, .database⟩⟩ := by
    intro cells
    simp only [FilledRow.filled, List.length_map, List.zip_map_left, List.zipIdx_map, List.map_map]
    congr 2
    funext q
    simp only [Function.comp, Value.filled, horigin]
    rfl
  unfold row supply
  simp only [funext hfilled]
  cases checkFields strict table columns r with
  | error e => rfl
  | ok =>
    change ((columns.zipIdx.mapM fun q => value table p row' r (id' q.2) q.1) >>= _) = Except.map _ _
    rw [hvalues]
    cases columns.mapM (held table n r) with
    | error e => rfl
    | ok cells => rfl

theorem mapM_supply_eq_ok_iff {strict : Bool} {records : List SourceRecord} {rows : List (List Scalar)} :
    records.zipIdx.mapM (supply strict table columns) = .ok rows ↔
      List.Forall₂ (Fills strict table columns) records rows := by
  simp only [List.mapM_eq_ok_iff, supply_eq_ok_iff]
  rw [← List.forall₂_map_left_iff (f := Prod.fst), List.zipIdx_map_fst]

/-- A supplied table is filled with what its records hold. -/
theorem draft_eq {setup : Setup} (horigin : p.origin = .database) (htable : p.table = table.id) :
    draft setup p table =
      ((setup.data.records table.name).zipIdx.mapM
        (supply setup.settings.strictColumns table (setup.catalog.columnsOf table.id))).map fun rows =>
          ⟨.filled p ((setup.catalog.columnsOf table.id).map Column.id) rows, []⟩ := by
  have hcolumns : ∀ column ∈ setup.catalog.columnsOf table.id, column.table = p.table := by
    intro column hcolumn
    rw [htable]
    simpa using (List.mem_filter.1 hcolumn).2
  let columns := setup.catalog.columnsOf table.id
  let records := setup.data.records table.name
  unfold draft
  dsimp only
  rw [List.mapM_zipIdx_map (h := fun _ cells n => FilledRow.filled p (columns.map Column.id) (cells, n))
    (fun _ _ _ => row_eq horigin hcolumns) 0]
  cases hrows : records.zipIdx.mapM (supply setup.settings.strictColumns table columns) with
  | error e => rfl
  | ok rows =>
    have hrecords := mapM_supply_eq_ok_iff.1 hrows
    change Except.ok _ = Except.ok _
    dsimp only
    rw [Extent.filled, ← hrecords.zip_zipIdx, List.map_map]
    rfl

/-- A supplied table is determined by what its records hold. -/
theorem draft_eq_ok_iff {setup : Setup} {d : Draft} (horigin : p.origin = .database)
    (htable : p.table = table.id) :
    draft setup p table = .ok d ↔
      ∃ rows, List.Forall₂ (Fills setup.settings.strictColumns table (setup.catalog.columnsOf table.id))
          (setup.data.records table.name) rows ∧
        d = ⟨.filled p ((setup.catalog.columnsOf table.id).map Column.id) rows, []⟩ := by
  rw [draft_eq horigin htable, Except.map_eq_ok_iff]
  simp only [mapM_supply_eq_ok_iff, eq_comm (b := d)]

end Populate

/-! ## Planned columns -/

namespace Plan

variable {c : Catalog} {policy : SpeculativePolicy} {sources : List SourceTable} {table : String}
  {col : Column} {cols : List Column} {plan : List ColumnPlan} {planned : ColumnPlan}

theorem missingCube?_eq_none {e : Expr} (h : missingCube? c sources e = .ok none) :
    ∀ name ∈ e.cubeColumns, c.hasColumn name.toColumn := by
  unfold missingCube? at h
  dsimp only at h
  split at h
  · cases h
  · intro name hname
    have hnone := List.find?_eq_none.1 (Except.ok.inj h) name (mem_distinct.2 hname)
    simpa using hnone

theorem missingCube?_eq_some {e : Expr} {name : CubeColumn}
    (h : missingCube? c sources e = .ok (some name)) :
    name ∈ e.cubeColumns ∧ c.hasColumn name.toColumn = false := by
  unfold missingCube? at h
  dsimp only at h
  split at h
  · cases h
  · have hfind := Except.ok.inj h
    exact ⟨mem_distinct.1 (List.mem_of_find?_eq_some hfind), by simpa using List.find?_some hfind⟩

/-- A column that is planned is computed from its expression if the schema has all speculative columns that
it names, and filled with the default of the policy if not. -/
theorem cases_of_column (h : column c policy sources table col = .ok (some planned)) :
    ∃ e, col.expr? = some e ∧
      ((planned = .compute col e ∧ ∀ name ∈ e.cubeColumns, c.hasColumn name.toColumn) ∨
        ∃ v, planned = .fill col v ∧ policy = .default v ∧
          ∃ name ∈ e.cubeColumns, c.hasColumn name.toColumn = false) := by
  unfold column at h
  unfold Column.expr?
  split at h
  · cases h
  · next text e references hkind =>
    refine ⟨e, by simp only [hkind], ?_⟩
    split at h
    · cases h
    · obtain ⟨missing, hmissing, h⟩ := Except.bind_eq_ok_iff.1 h
      cases missing with
      | none =>
        cases h
        exact .inl ⟨rfl, missingCube?_eq_none hmissing⟩
      | some name =>
        cases policy with
        | abort => cases h
        | skip => cases h
        | default v =>
          cases h
          exact .inr ⟨v, rfl, rfl, name, missingCube?_eq_some hmissing⟩

theorem column_of_column (h : column c policy sources table col = .ok (some planned)) :
    planned.column = col ∧ col.expr?.isSome := by
  obtain ⟨e, he, ⟨rfl, -⟩ | ⟨v, rfl, -⟩⟩ := cases_of_column h
  · exact ⟨rfl, by rw [he]; rfl⟩
  · exact ⟨rfl, by rw [he]; rfl⟩

/-- A column is planned only if the sources have the columns that its expression names. -/
theorem anyHasColumn_of_column {e : Expr} (h : column c policy sources table col = .ok (some planned))
    (he : col.expr? = some e) : ∀ name ∈ e.columns, anyHasColumn sources name = true := by
  intro name hname
  unfold column at h
  unfold Column.expr? at he
  split at h
  · cases h
  · next text e' references hkind =>
    rw [hkind] at he
    cases he
    split at h
    · cases h
    · next hnone => simpa using List.find?_eq_none.1 hnone name (mem_distinct.2 hname)

theorem exists_of_mem_columns (h : columns c policy sources table cols = .ok plan)
    (hplanned : planned ∈ plan) :
    planned.column ∈ cols ∧ column c policy sources table planned.column = .ok (some planned) := by
  obtain ⟨options, hoptions, h⟩ := Except.bind_eq_ok_iff.1 h
  cases h
  obtain ⟨_, hmem, rfl⟩ := List.mem_filterMap.1 hplanned
  obtain ⟨col, hcol, hcolumn⟩ := (List.mapM_eq_ok_iff.1 hoptions).exists_of_mem_right hmem
  rw [(column_of_column hcolumn).1]
  exact ⟨hcol, hcolumn⟩

theorem expr?_of_compute {e : Expr} (h : columns c policy sources table cols = .ok plan)
    (hplanned : .compute col e ∈ plan) : col.expr? = some e := by
  obtain ⟨e', he', hcases⟩ := cases_of_column (exists_of_mem_columns h hplanned).2
  rcases hcases with ⟨heq, -⟩ | ⟨v, heq, -⟩
  · cases heq
    exact he'
  · cases heq

/-- A column that names no speculative column is computed. -/
theorem compute_mem {e : Expr} (h : columns c policy sources table cols = .ok plan) (hcol : col ∈ cols)
    (he : col.expr? = some e) (hcubes : e.cubeColumns = []) : .compute col e ∈ plan := by
  obtain ⟨options, hoptions, h⟩ := Except.bind_eq_ok_iff.1 h
  cases h
  obtain ⟨option, hmem, hcolumn⟩ := (List.mapM_eq_ok_iff.1 hoptions).exists_of_mem_left hcol
  have hmissing : missingCube? c sources e = .ok none := by
    simp [missingCube?, Expr.cubeParams, hcubes, distinct]
  suffices hoption : option = some (.compute col e) from List.mem_filterMap.2 ⟨_, hoption ▸ hmem, rfl⟩
  unfold column at hcolumn
  unfold Column.expr? at he
  split at hcolumn
  · cases hcolumn
  · next text e' references hkind =>
    rw [hkind] at he
    cases he
    split at hcolumn
    · cases hcolumn
    · rw [hmissing] at hcolumn
      cases hcolumn
      rfl

/-- A column is left out by the policy: it names a speculative column that the schema does not have. -/
def Omits (c : Catalog) (policy : SpeculativePolicy) (col : Column) : Prop :=
  policy = .skip ∧ ∃ e, col.expr? = some e ∧ ∃ name ∈ e.cubeColumns, c.hasColumn name.toColumn = false

theorem omits_of_column (h : column c policy sources table col = .ok none) : Omits c policy col := by
  unfold column at h
  unfold Omits Column.expr?
  split at h
  · cases h
  · next text e references hkind =>
    split at h
    · cases h
    · obtain ⟨missing, hmissing, h⟩ := Except.bind_eq_ok_iff.1 h
      cases missing with
      | none => cases h
      | some name =>
        cases policy with
        | abort => cases h
        | default v => cases h
        | skip =>
          exact ⟨rfl, e, by simp only [hkind], name, missingCube?_eq_some hmissing⟩

theorem not_omits_of_column (h : column c policy sources table col = .ok (some planned)) :
    ¬Omits c policy col := by
  intro ⟨hpolicy, e, he, name, hname, hmissing⟩
  obtain ⟨e', he', ⟨-, hall⟩ | ⟨v, -, hdefault, -⟩⟩ := cases_of_column h
  · cases he.symm.trans he'
    cases (hall name hname).symm.trans hmissing
  · cases hpolicy.symm.trans hdefault

/-- The columns that are planned are those that the policy does not leave out. -/
theorem mem_columns_iff (h : columns c policy sources table cols = .ok plan) (hcol : col ∈ cols) :
    col ∈ plan.map ColumnPlan.column ↔ ¬Omits c policy col := by
  constructor
  · intro hmem
    obtain ⟨planned, hplanned, rfl⟩ := List.mem_map.1 hmem
    exact not_omits_of_column (exists_of_mem_columns h hplanned).2
  · intro homits
    obtain ⟨options, hoptions, h⟩ := Except.bind_eq_ok_iff.1 h
    cases h
    obtain ⟨option, hmem, hcolumn⟩ := (List.mapM_eq_ok_iff.1 hoptions).exists_of_mem_left hcol
    cases option with
    | none => exact absurd (omits_of_column hcolumn) homits
    | some planned =>
      rw [← (column_of_column hcolumn).1]
      exact List.mem_map_of_mem (List.mem_filterMap.2 ⟨_, hmem, rfl⟩)

/-- The planned columns are some of the columns, in their order. -/
theorem sublist_of_columns (h : columns c policy sources table cols = .ok plan) :
    (plan.map ColumnPlan.column).Sublist cols := by
  obtain ⟨options, hoptions, h⟩ := Except.bind_eq_ok_iff.1 h
  cases h
  rw [List.mapM_eq_ok_iff] at hoptions
  clear h
  induction hoptions with
  | nil => exact List.Sublist.slnil
  | @cons col option cols options hcolumn _ ih =>
    cases option with
    | none => exact ih.cons col
    | some planned =>
      rw [List.filterMap_cons_some (f := id) rfl, List.map_cons, (column_of_column hcolumn).1]
      exact ih.cons_cons col

end Plan

/-! ## Derived tables -/

/-- What a derived row is made of: the rows it was made from, and for every column a payload with the values
that were read for it. -/
structure ComputedRow where
  sources : List Entity
  cells : List (Scalar × List Entity)

namespace ComputedRow

/-- The edges of a row and then those of its values. -/
def edges (p : Populated) (width : Nat) (row : ComputedRow) (n : Nat) : List Edge :=
  row.sources.map (fun e => ⟨⟨.derivedRow, Draft.rowId p.id.number width n⟩, .rowSource, e⟩) ++
    row.cells.zipIdx.flatMap fun cell => cell.1.2.map fun e =>
      ⟨⟨.evaluatedValue, Draft.valueId p.id.number width n cell.2⟩, .valueSource, e⟩

end ComputedRow

/-- A derived table with its edges: those of its definition, and then those of its rows. -/
def Draft.derived (p : Populated) (columns : List Id) (definitions : List Edge) (rows : List ComputedRow) :
    Draft :=
  ⟨.filled p columns (rows.map fun row => row.cells.map Prod.fst),
    definitions ++ rows.zipIdx.flatMap fun row => row.1.edges p columns.length row.2⟩

namespace Derive

variable {c : Catalog} {functions : Functions} {p : Populated} {frame : RowFrame} {plan : List ColumnPlan}

/-- What a planned column holds in a frame. -/
def Holds (c : Catalog) (functions : Functions) (frame : RowFrame) :
    ColumnPlan → Scalar × List Entity → Prop
  | .fill _ literal, cell => cell = (literal, [])
  | .compute _ e, cell => ∃ result, e.evaluate c functions frame.scope = .ok result ∧
    ¬(e.parameterCount ≠ 0 ∧ result.sources.isEmpty ∧ !result.nullExtended) ∧
    cell = (result.value, result.sources)

/-- What a row holds that is made of a frame. -/
def Fills (c : Catalog) (functions : Functions) (plan : List ColumnPlan) (frame : RowFrame)
    (row : ComputedRow) : Prop :=
  row.sources = frame.sourceRows ∧ List.Forall₂ (Holds c functions frame) plan row.cells

/-- What a planned column holds in a frame, as it is computed. -/
def cell (c : Catalog) (functions : Functions) (frame : RowFrame) :
    ColumnPlan → Except Error (Scalar × List Entity)
  | .fill _ literal => .ok (literal, [])
  | .compute _ e => do
    let result ← e.evaluate c functions frame.scope
    if e.parameterCount ≠ 0 ∧ result.sources.isEmpty ∧ !result.nullExtended then
      .error (.incompleteLineage e.parameterCount)
    else pure (result.value, result.sources)

/-- What a row holds that is made of a frame, as it is computed. -/
def compute (c : Catalog) (functions : Functions) (plan : List ColumnPlan) (frame : RowFrame) :
    Except Error ComputedRow := do
  pure ⟨frame.sourceRows, ← plan.mapM (cell c functions frame)⟩

theorem cell_eq_ok_iff {column : ColumnPlan} {held : Scalar × List Entity} :
    cell c functions frame column = .ok held ↔ Holds c functions frame column held := by
  cases column with
  | fill => exact ⟨fun h => (Except.ok.inj h).symm, fun h => congrArg Except.ok h.symm⟩
  | compute _ e =>
    unfold cell Holds
    simp only [Except.bind_eq_ok_iff]
    constructor
    · rintro ⟨result, hresult, h⟩
      split at h
      · cases h
      · next hread => cases h; exact ⟨result, hresult, hread, rfl⟩
    · rintro ⟨result, hresult, hread, rfl⟩
      exact ⟨result, hresult, by rw [if_neg hread]; rfl⟩

theorem compute_eq_ok_iff {row : ComputedRow} :
    compute c functions plan frame = .ok row ↔ Fills c functions plan frame row := by
  unfold compute Fills
  simp only [Except.bind_eq_ok_iff, Except.pure_eq_ok_iff, List.mapM_eq_ok_iff, cell_eq_ok_iff]
  constructor
  · rintro ⟨cells, hcells, rfl⟩
    exact ⟨rfl, hcells⟩
  · rintro ⟨hsources, hcells⟩
    exact ⟨_, hcells, by rw [← hsources]⟩

theorem create_of_computed {id : Id} {row : Row} {column : Column} {payload : Scalar}
    (hrow : row.populated = p.id) (horigin : row.origin = .derived) (htable : column.table = p.table)
    (hkind : column.expr?.isSome) :
    Value.create id p row column payload = .ok ⟨id, row.id, column.id, payload, .derived⟩ := by
  unfold Column.expr? at hkind
  unfold Value.create
  simp only [hrow, htable, horigin, ne_eq, not_true_eq_false, if_false]
  split at hkind
  · next h => simp only [h]
  · cases hkind

/-- A value in a place of a row, with the edges to the values that were read for it. -/
def entry (p : Populated) (width n : Nat) (column : ColumnPlan) (cell : Scalar × List Entity) (k : Nat) :
    Value × List Edge :=
  (.filled p width n ((column.column.id, cell.1), k), cell.2.map fun e =>
    ⟨⟨.evaluatedValue, Draft.valueId p.id.number width n k⟩, .valueSource, e⟩)

theorem value_eq {width n k : Nat} {column : ColumnPlan} (horigin : p.origin = .derived)
    (htable : column.column.table = p.table) (hkind : column.column.expr?.isSome) :
    value c functions p (.create (Draft.rowId p.id.number width n) p n) frame
        (Draft.valueId p.id.number width n k) column =
      (cell c functions frame column).map (entry p width n column · k) := by
  have hcreate : ∀ payload, Value.create (Draft.valueId p.id.number width n k) p
      (.create (Draft.rowId p.id.number width n) p n) column.column payload =
      .ok (.filled p width n ((column.column.id, payload), k)) := by
    intro payload
    rw [create_of_computed rfl horigin htable hkind, Value.filled, horigin]
    rfl
  have hentity : ∀ payload, (Value.filled p width n ((column.column.id, payload), k)).entity =
      ⟨.evaluatedValue, Draft.valueId p.id.number width n k⟩ := by
    intro payload
    simp only [Value.entity, Value.filled, horigin]
    rfl
  cases column with
  | fill column literal => exact Except.bind_of_ok (hcreate literal)
  | compute column e =>
    unfold value cell computed
    dsimp only
    cases e.evaluate c functions frame.scope with
    | error e => rfl
    | ok result =>
      change (if _ then _ else _) = Except.map _ (if _ then _ else _)
      split
      · rfl
      · refine (Except.bind_of_ok (hcreate result.value)).trans ?_
        rw [hentity]
        rfl

/-- A row in its place, with its edges. -/
def line (p : Populated) (plan : List ColumnPlan) (computed : ComputedRow) (n : Nat) :
    FilledRow × List Edge :=
  (.filled p (plan.map fun column => column.column.id) (computed.cells.map Prod.fst, n),
    computed.edges p plan.length n)

theorem row_eq {n : Nat} (horigin : p.origin = .derived)
    (hplan : ∀ column ∈ plan, column.column.table = p.table ∧ column.column.expr?.isSome) :
    row c functions p plan p.id.number (frame, n) =
      (compute c functions plan frame).map (line p plan · n) := by
  let row' := Row.create (Draft.rowId p.id.number plan.length n) p n
  let value' (q : ColumnPlan × Nat) :=
    value c functions p row' frame (Draft.valueId p.id.number plan.length n q.2) q.1
  have hvalues : plan.zipIdx.mapM value' = (plan.mapM (cell c functions frame)).map fun cells =>
      (plan.zip cells).zipIdx.map fun q => entry p plan.length n q.1.1 q.1.2 q.2 := by
    rw [← List.mapM_zipIdx_fst (f := cell c functions frame) 0]
    exact List.mapM_zipIdx_map (f := value') (g := fun q => cell c functions frame q.1)
      (h := entry p plan.length n)
      (fun column hcolumn _ => value_eq horigin (hplan column hcolumn).1 (hplan column hcolumn).2) 0
  have hrow : ∀ cells, (⟨row', ((plan.zip cells).zipIdx.map fun q =>
        entry p plan.length n q.1.1 q.1.2 q.2).map Prod.fst⟩ : FilledRow) =
      .filled p (plan.map fun column => column.column.id) (cells.map Prod.fst, n) := by
    intro cells
    simp only [FilledRow.filled, List.length_map, List.zip_map, List.zipIdx_map, List.map_map]
    rfl
  have hedges : ∀ cells, plan.mapM (cell c functions frame) = .ok cells →
      frame.sourceRows.map (fun e => (⟨row'.entity, .rowSource, e⟩ : Edge)) ++
        ((plan.zip cells).zipIdx.map fun q => entry p plan.length n q.1.1 q.1.2 q.2).flatMap Prod.snd =
      ComputedRow.edges p plan.length ⟨frame.sourceRows, cells⟩ n := by
    intro cells hcells
    have hentity : row'.entity = ⟨.derivedRow, Draft.rowId p.id.number plan.length n⟩ := by
      simp only [row', Row.entity, Row.create, horigin]
      rfl
    rw [ComputedRow.edges, ← (List.mapM_eq_ok_iff.1 hcells).zip_zipIdx, List.flatMap_map,
      List.flatMap_map, hentity]
    rfl
  unfold row compute
  change (plan.zipIdx.mapM value' >>= _) = _
  rw [hvalues]
  cases hcells : plan.mapM (cell c functions frame) with
  | error e => rfl
  | ok cells => exact congrArg Except.ok (Prod.ext (hrow cells) (hedges cells hcells))

/-- A derived table is made by planning its columns and computing them in each of its frames. -/
theorem draft_eq {setup : Setup} {table : Table} {creation : Creation} {sources : List SourceTable}
    (horigin : p.origin = .derived) (htable : p.table = table.id) :
    draft setup p table creation sources = (do
      Plan.checkFilter setup.catalog sources creation.approach
      let plan ← Plan.columns setup.catalog setup.settings.policy sources table.name
        (setup.catalog.columnsOf table.id)
      let frames ← creation.approach.createRows setup.catalog setup.functions sources
      let rows ← frames.mapM (compute setup.catalog setup.functions plan)
      pure (.derived p (plan.map fun column => column.column.id)
        (if setup.settings.recordDefinitions then definitionEdges creation plan else []) rows)) := by
  let c := setup.catalog
  have hrows : ∀ {plan : List ColumnPlan} (frames : List RowFrame),
      Plan.columns c setup.settings.policy sources table.name (c.columnsOf table.id) = .ok plan →
      frames.zipIdx.mapM (row c setup.functions p plan p.id.number) =
        (frames.mapM (compute c setup.functions plan)).map fun rows =>
          (frames.zip rows).zipIdx.map fun q => line p plan q.1.2 q.2 := by
    intro plan frames hplan
    rw [← List.mapM_zipIdx_fst (f := compute c setup.functions plan) 0]
    refine List.mapM_zipIdx_map (g := fun q => compute c setup.functions plan q.1)
      (h := fun _ => line p plan) (fun _ _ _ => row_eq horigin fun column hmem => ?_) 0
    obtain ⟨hcol, hcolumn⟩ := Plan.exists_of_mem_columns hplan hmem
    exact ⟨htable ▸ of_decide_eq_true (List.mem_filter.1 hcol).2, (Plan.column_of_column hcolumn).2⟩
  unfold draft
  dsimp only
  congr 1
  funext _
  cases hplan : Plan.columns c setup.settings.policy sources table.name (c.columnsOf table.id) with
  | error e => rfl
  | ok plan =>
    let frames? := creation.approach.createRows c setup.functions sources
    change (frames? >>= _) = (frames? >>= _)
    congr 1
    funext frames
    rw [hrows frames hplan]
    cases hcomputed : frames.mapM (compute c setup.functions plan) with
    | error e => rfl
    | ok rows =>
      change Except.ok _ = Except.ok _
      rw [Draft.derived, Extent.filled, List.zipIdx_map, ← (List.mapM_eq_ok_iff.1 hcomputed).zip_zipIdx]
      simp only [List.map_map, List.flatMap_map, List.length_map]
      rfl

/-- A derived table is determined by its frames and by what its planned columns hold in them. -/
theorem draft_eq_ok_iff {setup : Setup} {table : Table} {creation : Creation}
    {sources : List SourceTable} {d : Draft} (horigin : p.origin = .derived)
    (htable : p.table = table.id) :
    draft setup p table creation sources = .ok d ↔
      Plan.checkFilter setup.catalog sources creation.approach = .ok () ∧
      ∃ plan, Plan.columns setup.catalog setup.settings.policy sources table.name
          (setup.catalog.columnsOf table.id) = .ok plan ∧
        ∃ frames, creation.approach.createRows setup.catalog setup.functions sources = .ok frames ∧
          ∃ rows, List.Forall₂ (Fills setup.catalog setup.functions plan) frames rows ∧
            d = .derived p (plan.map fun column => column.column.id)
              (if setup.settings.recordDefinitions then definitionEdges creation plan else []) rows := by
  rw [draft_eq horigin htable]
  simp only [Except.bind_eq_ok_iff, Except.pure_eq_ok_iff, List.mapM_eq_ok_iff, compute_eq_ok_iff,
    eq_comm (b := d)]
  exact ⟨fun ⟨_, h⟩ => h, fun h => ⟨(), h⟩⟩

end Derive

end Provenance
