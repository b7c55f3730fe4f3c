import Provenance.Proofs.Catalog.Named
import Provenance.Proofs.Correspondence
import Provenance.Proofs.Reachable

/-!
# Materialized tables are grids

Every table that is materialized in a reachable run is a grid over some of its columns (`Store.Grid`): its rows
are numbered from zero, and each of them has one value in every column, in the order of the columns. There is
nothing in the store outside of these grids. The view of a table is read off its grid alone
(`Store.Grid.exists_view`). Main statement: `Run.Reachable.grid`.
-/

namespace Provenance

/-- What a column of a kind may hold on one side of the lineage: a field holds supplied payloads of its data
type, and a function holds computed ones. -/
inductive ColumnKind.Accepts : ColumnKind → Origin → Scalar → Prop
  | supplied {type : DataType} {payload : Scalar} (conforms : payload.conforms type) :
      Accepts (.field type) .database payload
  | computed {text : FunctionText} {e : Expr} {references : List Entity} {payload : Scalar} :
      Accepts (.function text e references) .derived payload

/-- A value stands in a column of a row. -/
structure Value.Stands (r : Row) (col : Column) (v : Value) : Prop where
  row : v.row = r.id
  column : v.column = col.id
  origin : v.origin = r.origin
  accepts : col.kind.Accepts v.origin v.payload

/-- What is materialized of a table in a store is a grid over columns that the table declares, for a supplied
table over all of them and with a row for every record. -/
structure Store.Grid (setup : Setup) (s : Store) (t : Table) (p : Populated) (cols : List Column) :
    Prop where
  known : t ∈ setup.catalog.tables
  populates : p.Of t
  columns : s.columnsOf p.id = cols.map Column.id
  declared : cols.Sublist (setup.catalog.columnsOf t.id)
  supplied : t.creation = none → cols = setup.catalog.columnsOf t.id ∧
    (s.rowsOf p.id).length = (setup.data.records t.name).length
  numbers : (s.rowsOf p.id).map Row.number = List.range (s.rowsOf p.id).length
  rows : ∀ row ∈ s.rowsOf p.id, row.populated = p.id ∧ row.origin = p.origin
  values : ∀ row ∈ s.rowsOf p.id, List.Forall₂ (Value.Stands row) cols (s.valuesOf row.id)

/-- A value under the name of its column. -/
def CellView.show (col : Column) (v : Value) : CellView := ⟨col.name, v.entity, v.payload⟩

/-- A view shows a grid row by row, in each row the values under the names of the columns. -/
structure TableView.Shows (s : Store) (t : Table) (p : Populated) (cols : List Column)
    (view : TableView) : Prop where
  table : view.table = t.name
  populated : view.populated = p.entity
  columns : view.columns = cols.map Column.name
  rows : view.rows = (s.rowsOf p.id).map fun row =>
    ⟨row.entity, row.number, cols.zipWith CellView.show (s.valuesOf row.id)⟩
  rectangular : ∀ row ∈ view.rows, row.cells.map CellView.column = view.columns
  valueAt : ∀ (i j : Nat) row col v, (s.rowsOf p.id)[i]? = some row → cols[j]? = some col →
    (s.valuesOf row.id)[j]? = some v → view.valueAt? i col.name = some (.show col v)

/-! ## Filled tables -/

namespace Extent

variable {p : Populated} {columns : List Column} {rows : List (List Scalar)}

theorem numbers_filled {ids : List Id} :
    (filled p ids rows).rows.map Row.number = List.range rows.length := by
  rw [rows_filled, List.map_map, List.range_eq_range', ← List.zipIdx_map_snd 0 rows]
  rfl

theorem stands_filled {row : List Scalar × Nat} (hrow : row ∈ rows.zipIdx)
    (haccepts : List.Forall₂ (fun col payload => col.kind.Accepts p.origin payload) columns row.1) :
    let r := Row.create (Draft.rowId p.id.number (columns.map Column.id).length row.2) p row.2
    List.Forall₂ (Value.Stands r) columns ((filled p (columns.map Column.id) rows).valuesOf r) := by
  intro r
  rw [valuesOf_filled hrow]
  apply List.forall₂_of_getElem?
  · simp [haccepts.length_eq]
  · intro n col v hcol hv
    obtain ⟨payload, hpayload, haccept⟩ := haccepts.exists_of_getElem?_left hcol
    have hcell : ((columns.map Column.id).zip row.1)[n]? = some (col.id, payload) :=
      List.getElem?_zip_eq_some.2 ⟨by simp [hcol], hpayload⟩
    simp only [List.getElem?_map, List.getElem?_zipIdx, hcell, Option.map_some] at hv
    cases hv
    exact ⟨rfl, rfl, rfl, haccept⟩

theorem values_eq_flatMap {ids : List Id} :
    (filled p ids rows).values = (filled p ids rows).rows.flatMap (filled p ids rows).valuesOf := by
  rw [values_filled, rows_filled, List.flatMap_map]
  exact List.flatMap_congr fun row hrow => (valuesOf_filled hrow).symm

end Extent

/-! ## Commits -/

/-- A commit laid its table out over columns that the table declares. -/
structure Commit.Laid (setup : Setup) (c : Commit) (columns : List Column) (rows : List (List Scalar)) :
    Prop where
  extent : c.draft.extent = .filled c.draft.extent.populated (columns.map Column.id) rows
  declared : columns.Sublist (setup.catalog.columnsOf c.table.id)
  supplied : c.table.creation = none → columns = setup.catalog.columnsOf c.table.id ∧
    rows.length = (setup.data.records c.table.name).length
  accepts : ∀ row ∈ rows,
    List.Forall₂ (fun col payload => col.kind.Accepts c.draft.extent.populated.origin payload) columns row

namespace Commit

variable {setup : Setup} {cs : List Commit} {c : Commit}

theorem SuppliedBy.laid {rows : List (List Scalar)} (h : c.SuppliedBy setup rows)
    (horigin : c.draft.extent.populated.origin = .database) :
    c.Laid setup (setup.catalog.columnsOf c.table.id) rows where
  extent := congrArg Draft.extent h.draft
  declared := .refl _
  supplied _ := ⟨rfl, h.fills.length_eq.symm⟩
  accepts row hrow := by
    obtain ⟨r, -, -, hholds⟩ := h.fills.exists_of_mem_right hrow
    rw [horigin]
    refine hholds.imp fun col payload hpayload => ?_
    obtain ⟨type, hkind, -, hconforms⟩ := hpayload
    rw [hkind]
    exact .supplied hconforms

theorem ComputedFrom.laid {creation : Creation} {sources : List SourceTable} {plan : List ColumnPlan}
    {frames : List RowFrame} {rows : List ComputedRow}
    (h : c.ComputedFrom setup cs creation sources plan frames rows)
    (horigin : c.draft.extent.populated.origin = .derived) :
    c.Laid setup (plan.map ColumnPlan.column) (rows.map fun row => row.cells.map Prod.fst) where
  extent := by
    rw [List.map_map]
    exact h.extent_eq
  declared := Plan.sublist_of_columns h.planned
  supplied hsupplied := by
    cases hsupplied.symm.trans h.derived
  accepts row hrow := by
    obtain ⟨computed, hcomputed, rfl⟩ := List.mem_map.1 hrow
    obtain ⟨frame, -, -, hcells⟩ := h.fills.exists_of_mem_right hcomputed
    rw [List.forall₂_map_left_iff, List.forall₂_map_right_iff, horigin]
    refine hcells.mem_left.imp fun planned cell hcell => ?_
    obtain ⟨-, hplanned⟩ := Plan.exists_of_mem_columns h.planned hcell.1
    obtain ⟨e, he, -⟩ := Plan.cases_of_column hplanned
    unfold Column.expr? at he
    split at he
    · next hkind =>
      rw [hkind]
      exact .computed
    · cases he

/-- Whatever is committed is laid out over columns of its table. -/
theorem Follows.exists_laid (follows : c.Follows setup cs) : ∃ columns rows, c.Laid setup columns rows := by
  rcases follows.cases_of_staged with ⟨rows, h⟩ | ⟨creation, sources, plan, frames, rows, h⟩
  · exact ⟨_, _, h.laid (follows.populates.database h.supplied)⟩
  · exact ⟨_, _, h.laid (follows.populates.derived h.derived)⟩

end Commit

namespace State.MadeOf

variable {setup : Setup} {s : State} {cs : List Commit} {c : Commit} {columns : List Column}
  {rows : List (List Scalar)}

/-- A committed table is a grid in the store. -/
theorem grid_of_laid (hwf : setup.catalog.WellFormed) (h : s.MadeOf setup cs) (hc : c ∈ cs)
    (hlaid : c.Laid setup columns rows) :
    s.store.Grid setup c.table c.draft.extent.populated columns := by
  have hs := h.sound hwf
  have hx := h.mem_extents hc
  have hrows := hs.rowsOf_of_mem hx
  have hlength : c.draft.extent.rows.length = rows.length := by
    rw [hlaid.extent, Extent.rows_filled, List.length_map, List.length_zipIdx]
  have hplace : ∀ row ∈ c.draft.extent.rows, ∃ cells ∈ rows.zipIdx, row = .create
      (Draft.rowId c.draft.extent.populated.id.number (columns.map Column.id).length cells.2)
      c.draft.extent.populated cells.2 := by
    intro row hrow
    rw [hlaid.extent, Extent.rows_filled] at hrow
    obtain ⟨cells, hcells, heq⟩ := List.mem_map.1 hrow
    exact ⟨cells, hcells, heq.symm⟩
  constructor
  · exact h.history.known hc
  · exact h.history.populates hc
  · rw [hs.columnsOf_of_mem hx, hlaid.extent]
    rfl
  · exact hlaid.declared
  · intro hsupplied
    rw [hrows, hlength]
    exact hlaid.supplied hsupplied
  · rw [hrows, hlength, hlaid.extent, Extent.numbers_filled]
  · intro row hrow
    rw [hrows] at hrow
    obtain ⟨cells, -, rfl⟩ := hplace row hrow
    exact ⟨rfl, rfl⟩
  · intro row hrow
    rw [hrows] at hrow
    rw [hs.valuesOf_of_mem hx hrow]
    obtain ⟨cells, hcells, rfl⟩ := hplace row hrow
    have hstands := Extent.stands_filled hcells
      (hlaid.accepts cells.1 (List.fst_mem_of_mem_zipIdx hcells))
    rwa [← hlaid.extent] at hstands

/-- The rows of the store are those of its tables. -/
theorem rows_eq (hwf : setup.catalog.WellFormed) (h : s.MadeOf setup cs) :
    s.store.rows = s.store.populated.flatMap fun p => s.store.rowsOf p.id := by
  unfold Store.populated Store.rows
  rw [List.flatMap_map]
  exact List.flatMap_congr fun x hx => ((h.sound hwf).rowsOf_of_mem hx).symm

/-- The values of the store are those of its rows. -/
theorem values_eq (hwf : setup.catalog.WellFormed) (h : s.MadeOf setup cs) :
    s.store.values = s.store.rows.flatMap fun row => s.store.valuesOf row.id := by
  unfold Store.values Store.rows
  rw [List.flatMap_assoc]
  refine List.flatMap_congr fun x hx => ?_
  obtain ⟨cells, hfilled⟩ := (h.sound hwf).filled x hx
  have hvalues : x.values = x.rows.flatMap x.valuesOf := by
    rw [hfilled]
    exact Extent.values_eq_flatMap
  rw [hvalues]
  exact List.flatMap_congr fun row hrow => ((h.sound hwf).valuesOf_of_mem hx hrow).symm

end State.MadeOf

/-! ## Views -/

namespace TableView

variable {row : Row} {columns : List Column} {values : List Value}

/-- The values of a row are shown under the names of the columns that they stand in. -/
theorem filterMap_cellOf? {named : List (Id × String)}
    (hnamed : ∀ col ∈ columns, named.lookup col.id = some col.name)
    (h : List.Forall₂ (Value.Stands row) columns values) :
    values.filterMap (cellOf? named) = columns.zipWith CellView.show values := by
  induction h with
  | nil => rfl
  | @cons col v columns values hstands _ ih =>
    have hcell : cellOf? named v = some (.show col v) := by
      simp [cellOf?, CellView.show, hstands.column, hnamed col List.mem_cons_self]
    rw [List.filterMap_cons_some hcell, ih fun col hcol => hnamed col (List.mem_cons_of_mem _ hcol)]
    rfl

theorem map_column_zipWith (h : List.Forall₂ (Value.Stands row) columns values) :
    (columns.zipWith CellView.show values).map CellView.column = columns.map Column.name := by
  induction h with
  | nil => rfl
  | cons _ _ ih => exact congrArg _ ih

/-- A cell is found under the name of its column, if no two cells share one. -/
theorem cell?_of_nodup {r : RowView} {cell : CellView} (hnodup : (r.cells.map CellView.column).Nodup)
    (hcell : cell ∈ r.cells) : r.cell? cell.column = some cell :=
  (List.find?_key_eq_some_iff hnodup).2 ⟨hcell, rfl⟩

end TableView

/-- The view of a table shows its grid. -/
theorem Store.Grid.exists_view {setup : Setup} {s : Store} {t : Table} {p : Populated}
    {columns : List Column} (hwf : setup.catalog.WellFormed) (hnamed : setup.catalog.Named)
    (h : s.Grid setup t p columns) (hp : s.populatedFor? t.id = some p) :
    ∃ view, TableView.ofStore setup.catalog s t.name = .ok view ∧ view.Shows s t p columns := by
  have hcolumns : ∀ col ∈ columns, col ∈ setup.catalog.columns := fun col hcol =>
    (Catalog.mem_columnsOf.1 (h.declared.subset hcol)).1
  have hnames := mapM_columnName hwf hcolumns
  have hlookup : ∀ col ∈ columns,
      ((columns.map Column.id).zip (columns.map Column.name)).lookup col.id = some col.name :=
    fun col hcol => TableView.lookup_zip hnames (List.mem_map_of_mem hcol)
      (columnName_of_mem hwf (hcolumns col hcol))
  have hshown : ((columns.map Column.id).zip (columns.map Column.name)).map Prod.snd =
      columns.map Column.name := List.map_snd_zip (by simp)
  have hrows : ∀ row ∈ s.rowsOf p.id,
      TableView.rowOf s ((columns.map Column.id).zip (columns.map Column.name)) row =
        ⟨row.entity, row.number, columns.zipWith CellView.show (s.valuesOf row.id)⟩ := by
    intro row hrow
    rw [TableView.rowOf, TableView.filterMap_cellOf? hlookup (h.values row hrow)]
  have hcells : ∀ row ∈ s.rowsOf p.id,
      (columns.zipWith CellView.show (s.valuesOf row.id)).map CellView.column = columns.map Column.name :=
    fun row hrow => TableView.map_column_zipWith (h.values row hrow)
  refine ⟨⟨t.name, p.entity, columns.map Column.name, (s.rowsOf p.id).map fun row =>
    ⟨row.entity, row.number, columns.zipWith CellView.show (s.valuesOf row.id)⟩⟩, ?_, ?_⟩
  · apply Except.bind_eq_ok_iff.2 ⟨t, hwf.table_of_mem h.known, ?_⟩
    simp only [hp]
    rw [h.columns, TableView.namedColumns_eq hnames, hshown, List.map_congr_left hrows]
    rfl
  · constructor
    case table | populated | columns | rows => rfl
    case rectangular =>
      intro shown hshown
      obtain ⟨row, hrow, rfl⟩ := List.mem_map.1 hshown
      exact hcells row hrow
    case valueAt =>
      intro i j row col v hi hj hv
      have hrow : row ∈ s.rowsOf p.id := List.mem_of_getElem? hi
      have hcell : CellView.show col v ∈ columns.zipWith CellView.show (s.valuesOf row.id) :=
        List.mem_of_getElem? (i := j) (by simp [List.getElem?_zipWith, hj, hv])
      have hsingle : (columns.map Column.name).Nodup :=
        (hnamed.single t h.known).sublist (h.declared.map Column.name)
      rw [← hcells row hrow] at hsingle
      simp only [TableView.valueAt?, List.getElem?_map, hi, Option.map_some]
      exact TableView.cell?_of_nodup (r := ⟨row.entity, row.number, _⟩) hsingle hcell

namespace Run

variable {r : Run}

/-- No table is materialized twice. Each materialized table is a grid over columns that it declares, all rows
and values belong to these grids, and the view of the table shows its grid. -/
theorem Reachable.grid (h : r.Reachable) :
    (r.state.store.populated.map Populated.table).Nodup ∧
    (∀ p ∈ r.state.store.populated, ∃ t columns, r.state.store.Grid r.setup t p columns ∧
      ∃ view, r.tableView t.name = .ok view ∧ view.Shows r.state.store t p columns) ∧
    (r.state.store.rows = r.state.store.populated.flatMap fun p => r.state.store.rowsOf p.id) ∧
    r.state.store.values = r.state.store.rows.flatMap fun row => r.state.store.valuesOf row.id := by
  obtain ⟨hwf, cs, hmade⟩ := h.exists_madeOf
  obtain ⟨schema, first, compiled⟩ := h.exists_compile
  have hs := hmade.sound hwf
  refine ⟨?_, fun p hp => ?_, hmade.rows_eq hwf, hmade.values_eq hwf⟩
  · unfold Store.populated
    rw [List.map_map]
    exact hs.tables
  · obtain ⟨x, hx, rfl⟩ := List.mem_map.1 hp
    obtain ⟨c, hc, rfl⟩ := hmade.exists_of_mem_extents hx
    obtain ⟨before, after, -, follows⟩ := hmade.history.exists_follows hc
    obtain ⟨columns, rows, hlaid⟩ := follows.exists_laid
    have hgrid := hmade.grid_of_laid hwf hc hlaid
    have hfor : r.state.store.populatedFor? c.table.id = some c.draft.extent.populated := by
      rw [← (hmade.history.populates hc).table]
      exact hs.populatedFor?_of_mem hx
    exact ⟨c.table, columns, hgrid, hgrid.exists_view hwf (Schema.named_of_compile compiled) hfor⟩

end Run

namespace Sample

/-- The totals of the regions are a grid of one row and two columns, and so they are viewed. -/
theorem grid_total :
    let r := run.after (.materialize "total")
    ∃ p ∈ r.state.store.populated, ∃ t columns, t.name = "total" ∧ r.state.store.Grid r.setup t p columns ∧
      ∃ view, r.tableView "total" = .ok view ∧ view.Shows r.state.store t p columns := by
  intro r
  obtain ⟨-, hgrid, -⟩ := Run.Reachable.grid (.call reachable_run (.materialize "total"))
  have hp : ⟨⟨18⟩, ⟨10⟩, ⟨2⟩, .derived, .epoch⟩ ∈ r.state.store.populated := by decide +kernel
  obtain ⟨t, columns, htotal, view, hview, hshows⟩ := hgrid _ hp
  have ht : t = ⟨⟨2⟩, "total", some total⟩ := by
    have hid : t.id = ⟨2⟩ := htotal.populates.table.symm
    have hknown : t ∈ [Table.database ⟨1⟩ "sale", ⟨⟨2⟩, "total", some Sample.total⟩, ⟨⟨3⟩, "loop", some loop⟩] :=
      htotal.known
    simp only [List.mem_cons, List.not_mem_nil, or_false] at hknown
    rcases hknown with rfl | rfl | rfl
    · cases hid
    · rfl
    · cases hid
  subst ht
  exact ⟨_, hp, _, columns, rfl, htotal, view, hview, hshows⟩

end Sample

end Provenance
