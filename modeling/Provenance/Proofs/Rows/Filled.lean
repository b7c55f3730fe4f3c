import Provenance.Proofs.Rows.Bound

/-!
# Filled tables as sources

A table that is filled from payloads is bound with exactly these: in every row the payload of a column stands
under the name of the column, with the value that it was filled into (`Extent.bind_filled`).
-/

namespace Provenance

/-- The cell of a table in the given place. -/
def Cell.filled (p : Populated) (width row column : Nat) (payload : Scalar) : Cell :=
  ⟨⟨p.origin.valueKind, Draft.valueId p.id.number width row column⟩, payload⟩

/-- A row of payloads in a place of a table, each under the name of its column. -/
def SourceRow.filled (p : Populated) (names : List String) (row : List Scalar × Nat) : SourceRow :=
  ⟨⟨p.origin.rowKind, Draft.rowId p.id.number names.length row.2⟩, (names.zip row.1).zipIdx.map fun cell =>
    (cell.1.1, .filled p names.length row.2 cell.2 cell.1.2)⟩

/-- A table with rows of payloads under the names of its columns. -/
def SourceTable.filled (p : Populated) (name : String) (names : List String) (rows : List (List Scalar)) :
    SourceTable :=
  ⟨name, names, rows.zipIdx.map (SourceRow.filled p names)⟩

variable {c : Catalog} {p : Populated} {columns : List Id} {names : List String}
  {rows : List (List Scalar)} {row : List Scalar × Nat}

namespace SourceRow

/-- The cell in a column is the one under its name, if no two columns share a name. -/
theorem cell?_of_mem {r : SourceRow} {column : String} {cell : Cell} (hnodup : (r.cells.map Prod.fst).Nodup)
    (hcell : (column, cell) ∈ r.cells) : r.cell? column = some cell :=
  List.lookup_of_mem hnodup hcell

theorem names_filled (hlength : row.1.length = names.length) :
    (filled p names row).cells.map Prod.fst = names := by
  unfold filled
  rw [List.map_map]
  change (names.zip row.1).zipIdx.map (Prod.fst ∘ Prod.fst) = names
  rw [← List.map_map, List.zipIdx_map_fst, List.map_fst_zip (Nat.le_of_eq hlength.symm)]

/-- The cell of a filled row in a column holds the payload in the place of the column. -/
theorem cell?_filled (hnames : names.Nodup) (hlength : row.1.length = names.length) {k : Nat}
    {column : String} {payload : Scalar} (hcolumn : names[k]? = some column)
    (hpayload : row.1[k]? = some payload) :
    (filled p names row).cell? column = some (.filled p names.length row.2 k payload) := by
  have hcell : ((column, payload), k) ∈ (names.zip row.1).zipIdx :=
    List.mem_zipIdx_iff_getElem?.2 (List.getElem?_zip_eq_some.2 ⟨hcolumn, hpayload⟩)
  exact cell?_of_mem (by rwa [names_filled hlength]) (List.mem_map_of_mem hcell)

end SourceRow

namespace Extent

/-- A row of a filled table is bound with its payloads. -/
theorem bindRow_filled (hnames : columns.mapM (SourceTable.columnName c) = .ok names)
    (hrow : row ∈ rows.zipIdx) :
    (filled p columns rows).bindRow c (.create (Draft.rowId p.id.number columns.length row.2) p row.2) =
      .ok (.filled p names row) := by
  have hlength : columns.length = names.length := (List.mapM_eq_ok_iff.1 hnames).length_eq
  have hcells := ((List.mapM_eq_ok_iff.1 hnames).zip_right row.1).zipIdx 0
  have hvalues : ((columns.zip row.1).zipIdx.map (Value.filled p columns.length row.2)).mapM
      (SourceTable.bindCell c) = .ok (SourceRow.filled p names row).cells := by
    refine List.mapM_eq_ok_iff.2 (List.forall₂_map_left_iff.2 (List.forall₂_map_right_iff.2 ?_))
    refine hcells.imp ?_
    rintro ⟨⟨column, payload⟩, k⟩ ⟨⟨name, _⟩, _⟩ ⟨⟨hname, rfl⟩, rfl⟩
    refine Except.bind_eq_ok_iff.2 ⟨name, hname, ?_⟩
    rw [hlength]
    rfl
  unfold bindRow
  rw [valuesOf_filled hrow, hvalues, hlength]
  rfl

/-- A filled table is bound with its payloads. -/
theorem bind_filled (hnames : columns.mapM (SourceTable.columnName c) = .ok names) (name : String) :
    (filled p columns rows).bind c name = .ok (.filled p name names rows) := by
  have hrows : (filled p columns rows).rows.mapM ((filled p columns rows).bindRow c) =
      .ok (rows.zipIdx.map (SourceRow.filled p names)) := by
    rw [rows_filled, List.mapM_eq_ok_iff, List.forall₂_map_left_iff, List.forall₂_map_right_iff,
      List.forall₂_same]
    exact fun row hrow => bindRow_filled hnames hrow
  exact Except.bind_eq_ok_iff.2 ⟨names, hnames, Except.bind_eq_ok_iff.2 ⟨_, hrows, rfl⟩⟩

/-- A cell of a filled table is a value of it, under the name of its column. -/
theorem exists_value_of_mem_cells (hnames : columns.mapM (SourceTable.columnName c) = .ok names)
    {name column : String} {r : SourceRow} {cell : Cell} (hr : r ∈ (SourceTable.filled p name names rows).rows)
    (hcell : (column, cell) ∈ r.cells) :
    ∃ v ∈ (filled p columns rows).values, cell = ⟨v.entity, v.payload⟩ ∧
      SourceTable.columnName c v.column = .ok column := by
  obtain ⟨row, hrow, rfl⟩ := List.mem_map.1 hr
  obtain ⟨⟨⟨_, payload⟩, k⟩, hplace, heq⟩ := List.mem_map.1 hcell
  cases heq
  obtain ⟨hname, hpayload⟩ := List.getElem?_zip_eq_some.1 (List.mem_zipIdx_iff_getElem?.1 hplace)
  have hnames := List.mapM_eq_ok_iff.1 hnames
  obtain ⟨id, hid, hcolumn⟩ := hnames.exists_of_getElem?_right hname
  refine ⟨_, value_mem_filled p hrow hid hpayload, ?_, hcolumn⟩
  rw [← hnames.length_eq]
  rfl

end Extent

end Provenance
