import Mathlib.Data.Set.Function
import Provenance.Proofs.Rows.Filled
import Provenance.Proofs.Store.Twins
import Provenance.View

/-!
# Views up to a renaming

A renaming of identities carries the view of a table to that of every twin of it (`Extent.Twin.view_eq`).
A correspondence of entities that changes identities only gives such a renaming
(`Entity.Renames.exists_renaming`). A table that is filled from payloads is viewed with exactly these
(`Extent.view_filled`).
-/

namespace Provenance

/-- An entity with its identity renamed. -/
def Entity.rename (ρ : Id → Id) (e : Entity) : Entity := ⟨e.kind, ρ e.id⟩

def Edge.rename (ρ : Id → Id) (edge : Edge) : Edge :=
  ⟨edge.owner.rename ρ, edge.kind, edge.target.rename ρ⟩

def CellView.rename (ρ : Id → Id) (cell : CellView) : CellView :=
  ⟨cell.column, cell.value.rename ρ, cell.payload⟩

def RowView.rename (ρ : Id → Id) (r : RowView) : RowView :=
  ⟨r.row.rename ρ, r.number, r.cells.map (CellView.rename ρ)⟩

/-- A view with its identities renamed. Columns, the order of rows and payloads stay. -/
def TableView.rename (ρ : Id → Id) (t : TableView) : TableView :=
  ⟨t.table, t.populated.rename ρ, t.columns, t.rows.map (RowView.rename ρ)⟩

/-- The rows and values that a view shows. -/
def TableView.shown (t : TableView) : List Entity :=
  t.rows.flatMap fun r => r.row :: r.cells.map CellView.value

theorem TableView.shown_rename {ρ : Id → Id} {t : TableView} :
    (t.rename ρ).shown = t.shown.map (Entity.rename ρ) := by
  unfold shown rename RowView.rename CellView.rename
  simp only [List.flatMap_map, List.map_flatMap, List.map_cons, List.map_map]
  rfl

/-- A correspondence of entities that changes identities only is a renaming of identities. -/
theorem Entity.Renames.exists_renaming {E : Entity → Entity → Prop} (hE : Renames E) :
    ∃ ρ : Id → Id, (∀ e e', E e e' → e' = e.rename ρ) ∧
      Set.InjOn ρ {id | ∃ e e', E e e' ∧ e.id = id} := by
  have himage : ∀ id : Id, ∃ id', ∀ e e', E e e' → e.id = id → e'.id = id' := by
    intro id
    by_cases h : ∃ e e', E e e' ∧ e.id = id
    · obtain ⟨a, a', ha, rfl⟩ := h
      exact ⟨a'.id, fun e e' he hid => (hE.id _ _ _ _ he ha).1 hid⟩
    · exact ⟨id, fun e e' he hid => absurd ⟨e, e', he, hid⟩ h⟩
  choose ρ hρ using himage
  refine ⟨ρ, fun e e' he => ?_, ?_⟩
  · have hkind := hE.kind _ _ he
    have hid := hρ e.id e e' he rfl
    cases e'
    cases hkind
    cases hid
    rfl
  · rintro _ ⟨a, a', ha, rfl⟩ _ ⟨b, b', hb, rfl⟩ heq
    rw [← hρ a.id a a' ha rfl, ← hρ b.id b b' hb rfl] at heq
    exact (hE.id _ _ _ _ ha hb).2 heq

/-- A row of a table with its number, as it is viewed. -/
def RowView.ofSource (number : Nat) (r : SourceRow) : RowView :=
  ⟨r.row, number, r.cells.map fun cell => ⟨cell.1, cell.2.value, cell.2.payload⟩⟩

theorem RowView.payloads_ofSource (number : Nat) (r : SourceRow) :
    (ofSource number r).cells.map CellView.payload = r.cells.map fun cell => cell.2.payload :=
  List.map_map

theorem RowView.cell?_ofSource (number : Nat) (r : SourceRow) (column : String) :
    (ofSource number r).cell? column =
      (r.cell? column).map fun cell => ⟨column, cell.value, cell.payload⟩ := by
  obtain ⟨row, cells⟩ := r
  unfold ofSource cell? SourceRow.cell?
  induction cells with
  | nil => rfl
  | cons cell cells ih =>
    rw [List.map_cons, List.find?_cons, List.lookup_cons]
    by_cases h : column = cell.1
    · simp [h]
    · simp only [beq_eq_false_iff_ne.2 h, decide_eq_false (Ne.symm h)]
      exact ih

theorem SourceTable.columnName_eq_ok_iff {c : Catalog} {id : Id} {name : String} :
    columnName c id = .ok name ↔ (c.columnById? id).map Column.name = some name := by
  unfold columnName
  cases c.columnById? id with
  | none => simp
  | some col => simp

namespace TableView

variable {c : Catalog} {ids : List Id} {id : Id} {names : List String} {name : String}

theorem namedColumns_eq (hnames : ids.mapM (SourceTable.columnName c) = .ok names) :
    namedColumns c ids = ids.zip names := by
  rw [List.mapM_eq_ok_iff] at hnames
  induction hnames with
  | nil => rfl
  | @cons id name ids names hname _ ih =>
    obtain ⟨col, hcol, rfl⟩ := Option.map_eq_some_iff.1 (SourceTable.columnName_eq_ok_iff.1 hname)
    rw [List.zip_cons_cons, ← ih]
    simp [namedColumns, hcol]

theorem lookup_zip (hnames : ids.mapM (SourceTable.columnName c) = .ok names) (hid : id ∈ ids)
    (hname : SourceTable.columnName c id = .ok name) : (ids.zip names).lookup id = some name := by
  rw [List.mapM_eq_ok_iff] at hnames
  induction hnames with
  | nil => cases hid
  | @cons first name' ids names hfirst _ ih =>
    rw [List.zip_cons_cons, List.lookup_cons]
    by_cases h : id = first
    · subst h
      cases hname.symm.trans hfirst
      simp
    · simp only [beq_eq_false_iff_ne.2 h]
      exact ih ((List.mem_cons.1 hid).resolve_left h)

end TableView

namespace Extent

variable {c : Catalog} {x x' : Extent} {name : String}

/-- The view of a table under a name. -/
def view (c : Catalog) (x : Extent) (name : String) : TableView :=
  let columns := TableView.namedColumns c x.columns
  ⟨name, x.populated.entity, columns.map Prod.snd, x.rows.map fun r =>
    ⟨r.entity, r.number, (x.valuesOf r).filterMap (TableView.cellOf? columns)⟩⟩

/-- The view of a table is read off what was committed for it. -/
theorem ofStore_eq {s : Store} {t : Table} (hwf : c.WellFormed) (hs : s.Sound) (ht : t ∈ c.tables)
    (hx : x ∈ s.extents) (htable : x.populated.table = t.id) :
    TableView.ofStore c s t.name = .ok (x.view c t.name) := by
  have hrows : ∀ columns, x.rows.map (TableView.rowOf s columns) = x.rows.map fun r =>
      ⟨r.entity, r.number, (x.valuesOf r).filterMap (TableView.cellOf? columns)⟩ := by
    intro columns
    refine List.map_congr_left fun r hr => ?_
    rw [TableView.rowOf, hs.valuesOf_of_mem hx hr]
  have hfor : s.populatedFor? t.id = some x.populated := htable ▸ hs.populatedFor?_of_mem hx
  refine Except.bind_eq_ok_iff.2 ⟨t, hwf.table_of_mem ht, ?_⟩
  simp only [hfor]
  rw [hs.columnsOf_of_mem hx, hs.rowsOf_of_mem hx, hrows]
  rfl

theorem mem_entities_of_mem_shown {e : Entity} (h : e ∈ (x.view c name).shown) : e ∈ x.entities := by
  obtain ⟨r, hr, he⟩ := List.mem_flatMap.1 h
  obtain ⟨row, hrow, rfl⟩ := List.mem_map.1 hr
  rcases List.mem_cons.1 he with rfl | he
  · exact List.mem_append_left _ (List.mem_map_of_mem hrow)
  · obtain ⟨cell, hcell, rfl⟩ := List.mem_map.1 he
    obtain ⟨v, hv, hcell⟩ := List.mem_filterMap.1 hcell
    obtain ⟨column, -, rfl⟩ := Option.map_eq_some_iff.1 hcell
    exact List.mem_append_right _ (List.mem_map_of_mem (List.mem_filter.1 hv).1)

/-- A table that is filled from payloads is viewed with these. -/
theorem view_filled {p : Populated} {columns : List Id} {names : List String} {rows : List (List Scalar)}
    (hnames : columns.mapM (SourceTable.columnName c) = .ok names) :
    (filled p columns rows).view c name =
      ⟨name, p.entity, names, rows.zipIdx.map fun row => .ofSource row.2 (.filled p names row)⟩ := by
  have hpairs := List.mapM_eq_ok_iff.1 hnames
  have hlength := hpairs.length_eq
  have hshown : (columns.zip names).map Prod.snd = names := List.map_snd_zip (Nat.le_of_eq hlength.symm)
  have hlookup : List.Forall₂ (fun id name => (columns.zip names).lookup id = some name) columns names :=
    hpairs.mem_left.imp fun _ _ h => TableView.lookup_zip hnames h.1 h.2
  have hcells : ∀ row : List Scalar × Nat,
      ((columns.zip row.1).zipIdx.map (Value.filled p columns.length row.2)).filterMap
          (TableView.cellOf? (columns.zip names)) =
        (RowView.ofSource row.2 (.filled p names row)).cells := by
    intro row
    rw [List.filterMap_map, RowView.ofSource, SourceRow.filled]
    dsimp only
    rw [List.map_map, ← List.filterMap_eq_map]
    refine ((hlookup.zip_right row.1).zipIdx 0).filterMap_eq ?_
    rintro ⟨⟨id, payload⟩, k⟩ ⟨⟨name, _⟩, _⟩ ⟨⟨hname, rfl⟩, rfl⟩
    simp only [Function.comp, TableView.cellOf?, Value.filled, Cell.filled, hname, hlength]
    rfl
  unfold view
  dsimp only
  rw [show (filled p columns rows).columns = columns from rfl, TableView.namedColumns_eq hnames, hshown,
    rows_filled, List.map_map]
  congr 1
  refine List.map_congr_left fun row hrow => ?_
  simp only [Function.comp]
  rw [valuesOf_filled hrow, hcells, hlength]
  rfl

/-- A renaming that fits two twins carries the view of one to that of the other. -/
theorem Twin.view_eq {ρ : Id → Id} (h : x.Twin x') (hρ : ∀ e e', x.Pairs x' e e' → e' = e.rename ρ) :
    x'.view c name = (x.view c name).rename ρ := by
  have hcells : ∀ (columns : List (Id × String)) r r', x.RowTwin x' r r' →
      ((x.valuesOf r).filterMap (TableView.cellOf? columns)).map (CellView.rename ρ) =
        (x'.valuesOf r').filterMap (TableView.cellOf? columns) := by
    intro columns r r' hr
    rw [List.map_filterMap]
    refine hr.values.filterMap_eq ?_
    rintro v v' ⟨hcolumn, hpayload, hentity⟩
    rw [TableView.cellOf?, TableView.cellOf?, Option.map_map, hcolumn, hpayload, hρ _ _ hentity]
    rfl
  have hrows : ∀ columns : List (Id × String), (x.rows.map fun r => RowView.rename ρ
      ⟨r.entity, r.number, (x.valuesOf r).filterMap (TableView.cellOf? columns)⟩) =
      x'.rows.map fun r => ⟨r.entity, r.number, (x'.valuesOf r).filterMap (TableView.cellOf? columns)⟩ := by
    intro columns
    refine h.rows.map_eq fun r r' hr => ?_
    rw [RowView.rename, hcells columns r r' hr, ← hρ _ _ hr.entity, hr.number]
  unfold view TableView.rename
  dsimp only
  rw [List.map_map, ← h.columns, hρ _ _ (pairs_populated h), ← hrows]
  rfl

end Extent

end Provenance
