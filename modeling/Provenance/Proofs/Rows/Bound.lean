import Provenance.Initialization.Derive
import Provenance.Proofs.Catalog.WellFormed
import Provenance.Proofs.Store.Sound

/-!
# Materialized tables as sources

In a sound store a source table is read off the materialization of that table alone
(`SourceTable.bind_eq`). So it stays the same whatever else is materialized later.
-/

namespace Provenance

namespace Extent

/-- A row with its values in the table. -/
def bindRow (c : Catalog) (x : Extent) (r : Row) : Except Error SourceRow := do
  pure ⟨r.entity, ← (x.valuesOf r).mapM (SourceTable.bindCell c)⟩

/-- The table under a name, with the names of its columns. -/
def bind (c : Catalog) (x : Extent) (name : String) : Except Error SourceTable := do
  let columns ← x.columns.mapM (SourceTable.columnName c)
  let rows ← x.rows.mapM (x.bindRow c)
  pure ⟨name, columns, rows⟩

end Extent

theorem columnName_of_mem {c : Catalog} {col : Column} (hwf : c.WellFormed) (hcol : col ∈ c.columns) :
    SourceTable.columnName c col.id = .ok col.name := by
  unfold SourceTable.columnName
  rw [hwf.columnById?_of_mem hcol]

theorem mapM_columnName {c : Catalog} {cols : List Column} (hwf : c.WellFormed)
    (hcols : ∀ col ∈ cols, col ∈ c.columns) :
    (cols.map Column.id).mapM (SourceTable.columnName c) = .ok (cols.map Column.name) := by
  rw [List.mapM_eq_ok_iff, List.forall₂_map_left_iff, List.forall₂_map_right_iff, List.forall₂_same]
  exact fun col hcol => columnName_of_mem hwf (hcols col hcol)

/-- In a sound store a materialized table is read off what was committed for it. -/
theorem SourceTable.bind_eq {c : Catalog} {s : Store} {x : Extent} {t : Table} (hs : s.Sound)
    (hx : x ∈ s.extents) (ht : x.populated.table = t.id) : SourceTable.bind c s t = x.bind c t.name := by
  have hrows : x.rows.mapM (bindRow c s) = x.rows.mapM (x.bindRow c) := by
    refine List.mapM_congr fun r hr => ?_
    unfold bindRow Extent.bindRow
    rw [hs.valuesOf_of_mem hx hr]
  unfold SourceTable.bind Extent.bind
  rw [← ht, hs.populatedFor?_of_mem hx]
  dsimp only
  rw [hs.columnsOf_of_mem hx, hs.rowsOf_of_mem hx, hrows]

theorem bindSource_eq {c : Catalog} {s : Store} {x : Extent} {t : Table} (hwf : c.WellFormed)
    (hs : s.Sound) (ht : t ∈ c.tables) (hx : x ∈ s.extents) (htable : x.populated.table = t.id) :
    bindSource c s t.name = x.bind c t.name := by
  unfold bindSource
  rw [hwf.table_of_mem ht]
  exact SourceTable.bind_eq hs hx htable

theorem SourceTable.name_of_bind {c : Catalog} {s : Store} {t : Table} {x : SourceTable}
    (h : SourceTable.bind c s t = .ok x) : x.name = t.name := by
  unfold SourceTable.bind at h
  split at h
  · cases h
  · obtain ⟨_, -, h⟩ := Except.bind_eq_ok_iff.1 h
    obtain ⟨_, -, h⟩ := Except.bind_eq_ok_iff.1 h
    cases h
    rfl

/-- A column that one of the sources has is one of a source table. -/
theorem mem_of_anyHasColumn {c : Catalog} {s : Store} {names : List String} {sources : List SourceTable}
    {name : ColumnName} (h : names.mapM (bindSource c s) = .ok sources)
    (hhas : anyHasColumn sources name = true) : name.table ∈ names := by
  obtain ⟨x, hx, hhas⟩ := List.any_eq_true.1 hhas
  obtain ⟨source, hsource, hbind⟩ := (List.mapM_eq_ok_iff.1 h).exists_of_mem_right hx
  obtain ⟨t, ht, hbind⟩ := Except.bind_eq_ok_iff.1 hbind
  have hname : x.name = name.table := eq_of_beq (Bool.and_eq_true_iff.1 hhas).1
  rw [← hname, SourceTable.name_of_bind hbind, (Catalog.mem_of_table ht).2]
  exact hsource

/-- What is bound as the sources of a table are tables of the store. -/
theorem exists_bind_of_bindSources {c : Catalog} {s : Store} {names : List String}
    {sources : List SourceTable} (h : names.mapM (bindSource c s) = .ok sources) :
    ∀ t ∈ sources, ∃ table, SourceTable.bind c s table = .ok t := by
  intro t ht
  obtain ⟨name, -, hname⟩ := (List.mapM_eq_ok_iff.1 h).exists_of_mem_right ht
  obtain ⟨table, -, htable⟩ := Except.bind_eq_ok_iff.1 hname
  exact ⟨table, htable⟩

end Provenance
