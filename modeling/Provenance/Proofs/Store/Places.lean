import Provenance.Proofs.View

/-!
# Things in the same place

Two materializations of a table may differ in the columns that they have. Still, rows with the same number
stand in the same place of both, and so do values in the same column of such rows (`Extent.Meets`). Between
two sound stores this correspondence is a renaming (`Store.renames_meets`). A table that is filled from the
payloads that another one has in some columns (`Extent.Part`) is viewed as that one is in these columns alone
(`Extent.Part.view_eq`).
-/

namespace Provenance

/-- A row of a view in some of its columns. -/
def RowView.only (keep : String → Bool) (r : RowView) : RowView :=
  { r with cells := r.cells.filter fun cell => keep cell.column }

/-- A view in some of its columns. -/
def TableView.only (keep : String → Bool) (t : TableView) : TableView :=
  { t with columns := t.columns.filter keep, rows := t.rows.map (RowView.only keep) }

theorem TableView.only_true (t : TableView) : t.only (fun _ => true) = t := by
  have hrow : ∀ r : RowView, r.only (fun _ => true) = r := fun r => by simp [RowView.only]
  simp [only, funext hrow]

/-- The payloads that a view shows, row by row. -/
def TableView.payloads (t : TableView) : List (List Scalar) :=
  t.rows.map fun r => r.cells.map CellView.payload

theorem TableView.payloads_rename {ρ : Id → Id} {t : TableView} : (t.rename ρ).payloads = t.payloads := by
  simp only [payloads, rename, List.map_map]
  refine List.map_congr_left fun r _ => ?_
  simp only [Function.comp, RowView.rename, List.map_map]
  rfl

namespace Extent

/-- Entities in the same place of two tables: the tables themselves, rows with the same number, and values in
the same column of such rows. -/
inductive Meets (x x' : Extent) : Entity → Entity → Prop
  | populated : Meets x x' x.populated.entity x'.populated.entity
  | row {n : Nat} (hn : n < x.rows.length) (hn' : n < x'.rows.length) :
    Meets x x' ⟨x.populated.origin.rowKind, Draft.rowId x.populated.id.number x.columns.length n⟩
      ⟨x'.populated.origin.rowKind, Draft.rowId x'.populated.id.number x'.columns.length n⟩
  | value {n k k' : Nat} {column : Id} (hn : n < x.rows.length) (hn' : n < x'.rows.length)
    (hk : x.columns[k]? = some column) (hk' : x'.columns[k']? = some column) :
    Meets x x' ⟨x.populated.origin.valueKind, Draft.valueId x.populated.id.number x.columns.length n k⟩
      ⟨x'.populated.origin.valueKind, Draft.valueId x'.populated.id.number x'.columns.length n k'⟩

namespace Meets

variable {x x' : Extent} {a a' b b' : Entity}

theorem symm (h : x.Meets x' a a') : x'.Meets x a' a := by
  cases h with
  | populated => exact .populated
  | row hn hn' => exact .row hn' hn
  | value hn hn' hk hk' => exact .value hn' hn hk' hk

theorem kind (h : x.Meets x' a a') (horigin : x.populated.origin = x'.populated.origin) :
    a.kind = a'.kind := by
  cases h with
  | populated => exact congrArg Origin.tableKind horigin
  | row => exact congrArg Origin.rowKind horigin
  | value => exact congrArg Origin.valueKind horigin

/-- What has a place in a table has one of the identities of the table. -/
theorem range (h : x.Meets x' a a') : x.populated.id.number ≤ a.id.number ∧ a.id.number < x.idsEnd := by
  unfold idsEnd size
  cases h with
  | populated => exact ⟨Nat.le_refl _, by change x.populated.id.number < _; omega⟩
  | row hn =>
    have hlt := Draft.place_lt hn (Nat.zero_le x.columns.length)
    simp only [Draft.rowId]
    omega
  | value hn _ hk =>
    have hlt := Draft.place_lt hn (Nat.succ_le_of_lt (List.getElem?_eq_some_iff.1 hk).1)
    simp only [Draft.valueId]
    omega

/-- What has the same identity in one table meets what has the same identity in the other. -/
theorem id_eq (hcolumns : x'.columns.Nodup) (ha : x.Meets x' a a') (hb : x.Meets x' b b')
    (h : a.id = b.id) : a'.id = b'.id := by
  have hlt : ∀ {k : Nat} {column : Id}, x.columns[k]? = some column → k < x.columns.length := fun hk =>
    (List.getElem?_eq_some_iff.1 hk).1
  have hne : ∀ {e : Entity}, e.id = x.populated.id → e.id.number ≤ x.populated.id.number := fun he =>
    Nat.le_of_eq (congrArg Id.number he)
  cases ha with
  | populated =>
    cases hb with
    | populated => rfl
    | row | value =>
      have h := hne h.symm
      simp only [Draft.rowId, Draft.valueId] at h
      omega
  | @row n =>
    cases hb with
    | populated =>
      have h := hne h
      simp only [Draft.rowId] at h
      omega
    | row => exact congrArg (Draft.rowId _ _) (Draft.rowId_inj h)
    | value _ _ hk => exact absurd h (Draft.rowId_ne_valueId (hlt hk))
  | value _ _ hk hk' =>
    cases hb with
    | populated =>
      have h := hne h
      simp only [Draft.valueId] at h
      omega
    | row => exact absurd h.symm (Draft.rowId_ne_valueId (hlt hk))
    | value _ _ hj hj' =>
      obtain ⟨rfl, rfl⟩ := Draft.valueId_inj (hlt hk) (hlt hj) h
      cases hk.symm.trans hj
      rw [(List.getElem?_inj (List.getElem?_eq_some_iff.1 hk').1 hcolumns).1 (hk'.trans hj'.symm)]

end Meets

end Extent

/-! ## Stores -/

namespace Store

variable {s s' : Store}

/-- Entities in the same place of what two stores hold of a table. -/
def Meets (s s' : Store) (e e' : Entity) : Prop :=
  ∃ x ∈ s.extents, ∃ x' ∈ s'.extents, x.populated.table = x'.populated.table ∧
    x.populated.origin = x'.populated.origin ∧ x.Meets x' e e'

theorem Meets.symm {e e' : Entity} : s.Meets s' e e' → s'.Meets s e' e :=
  fun ⟨x, hx, x', hx', htable, horigin, h⟩ => ⟨x', hx', x, hx, htable.symm, horigin.symm, h.symm⟩

private theorem id_eq_of_meets (hs : s.Sound) (hs' : s'.Sound) (hcolumns : ∀ x ∈ s'.extents, x.columns.Nodup)
    {a b a' b' : Entity} (ha : s.Meets s' a a') (hb : s.Meets s' b b') (h : a.id = b.id) : a'.id = b'.id := by
  obtain ⟨x, hx, x', hx', htable, -, ha⟩ := ha
  obtain ⟨y, hy, y', hy', htable', -, hb⟩ := hb
  obtain rfl : x = y := hs.eq_of_range hx hy ha.range (h ▸ hb.range)
  obtain rfl : x' = y' := hs'.eq_of_table hx' hy' (htable.symm.trans htable')
  exact ha.id_eq (hcolumns _ hx') hb h

/-- Between sound stores the correspondence of places is a renaming. -/
theorem renames_meets (hs : s.Sound) (hs' : s'.Sound) (hcolumns : ∀ x ∈ s.extents, x.columns.Nodup)
    (hcolumns' : ∀ x ∈ s'.extents, x.columns.Nodup) : Entity.Renames (s.Meets s') where
  kind _ _ h := have ⟨_, _, _, _, _, horigin, h⟩ := h; h.kind horigin
  id _ _ _ _ ha hb :=
    ⟨id_eq_of_meets hs hs' hcolumns' ha hb, id_eq_of_meets hs' hs hcolumns ha.symm hb.symm⟩

end Store

/-! ## Tables in some of their columns -/

namespace Extent

/-- A table is filled from the payloads that another one has in some columns. -/
structure Part (keep : String → Bool) (cols cols' : List Column) (rows rows' : List (List Scalar)) :
    Prop where
  columns : cols = cols'.filter fun col => keep col.name
  rows : List.Forall₂ (fun row row' => cols.zip row = (cols'.zip row').filter fun cell => keep cell.1.name)
    rows rows'

variable {c : Catalog} {p p' : Populated} {cols cols' : List Column} {rows rows' : List (List Scalar)}
  {keep : String → Bool}

theorem length_rows_filled {ids : List Id} : (filled p ids rows).rows.length = rows.length := by
  rw [rows_filled, List.length_map, List.length_zipIdx]

/-- A table is a part of itself. -/
theorem Part.all (cols : List Column) (rows : List (List Scalar)) :
    Part (fun _ => true) cols cols rows rows where
  columns := (List.filter_eq_self.2 fun _ _ => rfl).symm
  rows := List.forall₂_same.2 fun _ _ => (List.filter_eq_self.2 fun _ _ => rfl).symm

/-- Everything in a table meets something in one that it is a part of. -/
theorem Part.exists_meets (h : Part keep cols cols' rows rows') {e : Entity}
    (he : e ∈ (filled p (cols.map Column.id) rows).entities) :
    ∃ e', (filled p (cols.map Column.id) rows).Meets (filled p' (cols'.map Column.id) rows') e e' := by
  have hrows : ∀ {n : Nat}, n < rows.length → n < (filled p (cols.map Column.id) rows).rows.length ∧
      n < (filled p' (cols'.map Column.id) rows').rows.length := fun hn =>
    ⟨length_rows_filled.symm ▸ hn, length_rows_filled.symm ▸ h.rows.length_eq ▸ hn⟩
  rcases List.mem_append.1 he with he | he
  · obtain ⟨r, hr, rfl⟩ := List.mem_map.1 he
    obtain ⟨n, hn, rfl⟩ := mem_rows_filled hr
    exact ⟨_, .row (hrows hn).1 (hrows hn).2⟩
  · obtain ⟨v, hv, rfl⟩ := List.mem_map.1 he
    obtain ⟨n, k, row, column, payload, hrow, hcolumn, -, rfl⟩ := place_of_mem_values_filled hv
    have hn := hrows (List.getElem?_eq_some_iff.1 hrow).1
    have hmem : column ∈ cols'.map Column.id := by
      have hmem := List.mem_of_getElem? hcolumn
      rw [h.columns] at hmem
      exact (List.filter_sublist.map Column.id).subset hmem
    obtain ⟨k', hk'⟩ := List.getElem?_of_mem hmem
    exact ⟨_, .value hn.1 hn.2 hcolumn hk'⟩

/-- Tables filled from the same payloads are bound with things in the same place. -/
theorem bind_rel_of_filled {E : Entity → Entity → Prop} (hwf : c.WellFormed)
    (hcols : ∀ col ∈ cols, col ∈ c.columns)
    (hE : ∀ e e', (filled p (cols.map Column.id) rows).Meets (filled p' (cols.map Column.id) rows) e e' →
      E e e')
    (name : String) :
    Except.Rel (SourceTable.Renamed E) ((filled p (cols.map Column.id) rows).bind c name)
      ((filled p' (cols.map Column.id) rows).bind c name) := by
  have hnames := mapM_columnName hwf hcols
  have hlength : (cols.map Column.name).length = (cols.map Column.id).length := by simp
  rw [bind_filled hnames, bind_filled hnames]
  refine .ok ⟨rfl, rfl, ?_⟩
  unfold SourceTable.filled
  rw [List.forall₂_map_left_iff, List.forall₂_map_right_iff, List.forall₂_same]
  intro row hrow
  have hn : ∀ p, row.2 < (filled p (cols.map Column.id) rows).rows.length := fun p =>
    length_rows_filled.symm ▸ List.snd_lt_of_mem_zipIdx hrow
  refine ⟨?_, ?_⟩
  · simp only [SourceRow.filled, hlength]
    exact hE _ _ (.row (hn p) (hn p'))
  · unfold SourceRow.filled
    rw [List.forall₂_map_left_iff, List.forall₂_map_right_iff, List.forall₂_same]
    rintro ⟨⟨column, payload⟩, k⟩ hcell
    obtain ⟨hcolumn, -⟩ := List.getElem?_zip_eq_some.1 (List.mem_zipIdx_iff_getElem?.1 hcell)
    rw [List.getElem?_map] at hcolumn
    obtain ⟨col, hcol, -⟩ := Option.map_eq_some_iff.1 hcolumn
    have hk : (cols.map Column.id)[k]? = some col.id := by rw [List.getElem?_map, hcol]; rfl
    refine ⟨rfl, ?_, rfl⟩
    simp only [Cell.filled, hlength]
    exact hE _ _ (.value (hn p) (hn p') hk hk)

theorem id_of_mem_zipIdx {α : Type} {row : List α} {cell : (Column × α) × Nat}
    (h : cell ∈ (cols.zip row).zipIdx) : (cols.map Column.id)[cell.2]? = some cell.1.1.id := by
  rw [List.getElem?_map, (List.getElem?_zip_eq_some.1 (List.mem_zipIdx_iff_getElem?.1 h)).1]
  rfl

/-- The cell of a value in the given place. -/
def cellAt (p : Populated) (width n : Nat) (cell : (Column × Scalar) × Nat) : CellView :=
  ⟨cell.1.1.name, ⟨p.origin.valueKind, Draft.valueId p.id.number width n cell.2⟩, cell.1.2⟩

/-- The view of a filled table, row by row. -/
theorem view_filled_of_columns (hwf : c.WellFormed) (hcols : ∀ col ∈ cols, col ∈ c.columns) (name : String) :
    (filled p (cols.map Column.id) rows).view c name =
      ⟨name, p.entity, cols.map Column.name, rows.zipIdx.map fun row =>
        ⟨⟨p.origin.rowKind, Draft.rowId p.id.number cols.length row.2⟩, row.2,
          (cols.zip row.1).zipIdx.map (cellAt p cols.length row.2)⟩⟩ := by
  rw [view_filled (mapM_columnName hwf hcols)]
  congr 1
  refine List.map_congr_left fun row _ => ?_
  simp only [RowView.ofSource, SourceRow.filled, List.length_map, List.zip_map_left, List.zipIdx_map,
    List.map_map]
  rfl

theorem payloads_view (hwf : c.WellFormed) (hcols : ∀ col ∈ cols, col ∈ c.columns)
    (hwidth : ∀ row ∈ rows, row.length = cols.length) (name : String) :
    ((filled p (cols.map Column.id) rows).view c name).payloads = rows := by
  have hrow : ∀ row ∈ rows.zipIdx,
      ((cols.zip row.1).zipIdx.map (cellAt p cols.length row.2)).map CellView.payload = row.1 := by
    intro row hrow
    have hlength := hwidth _ (List.fst_mem_of_mem_zipIdx hrow)
    rw [List.map_map]
    change (cols.zip row.1).zipIdx.map (Prod.snd ∘ Prod.fst) = row.1
    rw [← List.map_map, List.zipIdx_map_fst, List.map_snd_zip (Nat.le_of_eq hlength)]
  rw [view_filled_of_columns hwf hcols, TableView.payloads, List.map_map]
  conv_rhs => rw [← List.zipIdx_map_fst 0 rows]
  exact List.map_congr_left hrow

/-- Tables that are viewed alike, up to a renaming, are filled from the same payloads. -/
theorem eq_of_view {ρ : Id → Id} (hwf : c.WellFormed) (hcols : ∀ col ∈ cols, col ∈ c.columns)
    (hcols' : ∀ col ∈ cols', col ∈ c.columns) (hwidth : ∀ row ∈ rows, row.length = cols.length)
    (hwidth' : ∀ row ∈ rows', row.length = cols'.length)
    (hsingle : ∀ col ∈ cols, ∀ col' ∈ cols', col.name = col'.name → col = col') {name : String}
    (h : (filled p' (cols'.map Column.id) rows').view c name =
      ((filled p (cols.map Column.id) rows).view c name).rename ρ) :
    cols = cols' ∧ rows = rows' := by
  constructor
  · have hnames := congrArg TableView.columns h
    rw [view_filled_of_columns hwf hcols', view_filled_of_columns hwf hcols] at hnames
    have hsame : List.Forall₂ (fun col col' : Column => col.name = col'.name) cols cols' := by
      rw [← List.forall₂_map_right_iff (f := Column.name), ← List.forall₂_map_left_iff (f := Column.name)]
      exact List.forall₂_eq_eq_eq ▸ hnames.symm
    rw [← List.map_id cols', ← List.map_id cols]
    exact hsame.mem_left.mem_right.map_eq fun col col' ⟨hcol', hcol, hname⟩ =>
      hsingle col hcol col' hcol' hname
  · have hpayloads := congrArg TableView.payloads h
    rw [TableView.payloads_rename, payloads_view hwf hcols' hwidth',
      payloads_view hwf hcols hwidth] at hpayloads
    exact hpayloads.symm

/-- A renaming that fits the places of two tables, the first of which is a part of the second, carries the
view of the first to that of the second in some columns. -/
theorem Part.view_eq {ρ : Id → Id} (h : Part keep cols cols' rows rows') (hwf : c.WellFormed)
    (hcols : ∀ col ∈ cols', col ∈ c.columns)
    (hρ : ∀ e e', (filled p (cols.map Column.id) rows).Meets (filled p' (cols'.map Column.id) rows') e e' →
      e' = e.rename ρ) (name : String) :
    ((filled p (cols.map Column.id) rows).view c name).rename ρ =
      ((filled p' (cols'.map Column.id) rows').view c name).only keep := by
  have hsub : ∀ col ∈ cols, col ∈ c.columns := fun col hcol =>
    hcols col (List.mem_of_mem_filter (h.columns ▸ hcol))
  have hnames : cols.map Column.name = (cols'.map Column.name).filter keep := by
    rw [List.filter_map, h.columns]
    rfl
  have htable : p.entity.rename ρ = p'.entity := (hρ _ _ .populated).symm
  rw [view_filled_of_columns hwf hsub, view_filled_of_columns hwf hcols, TableView.rename, TableView.only]
  dsimp only
  rw [hnames, htable, List.map_map, List.map_map]
  congr 1
  refine (h.rows.zipIdx 0).mem_left.mem_right.map_eq ?_
  rintro ⟨row, n⟩ ⟨row', _⟩ ⟨hrow', hrow, hzip, rfl⟩
  have hn : n < (filled p (cols.map Column.id) rows).rows.length :=
    length_rows_filled.symm ▸ List.snd_lt_of_mem_zipIdx hrow
  have hn' : n < (filled p' (cols'.map Column.id) rows').rows.length :=
    length_rows_filled.symm ▸ List.snd_lt_of_mem_zipIdx hrow'
  have hentity := hρ _ _ (.row hn hn')
  simp only [filled, ofRows, List.length_map] at hentity
  have hcells : List.Forall₂ (fun cell cell' => cell.1 = cell'.1) (cols.zip row).zipIdx
      ((cols'.zip row').zipIdx.filter fun cell => keep cell.1.1.name) := by
    refine List.Forall₂.zipIdx_filter (R := Eq)
      (p := fun cell : Column × Scalar => keep cell.1.name) ?_
    rw [List.forall₂_eq_eq_eq]
    exact hzip
  simp only [Function.comp, RowView.rename, RowView.only, List.map_map, List.filter_map]
  congr 1
  · exact hentity.symm
  refine hcells.mem_left.mem_right.map_eq ?_
  rintro ⟨⟨col, payload⟩, k⟩ ⟨_, k'⟩ ⟨hcell', hcell, rfl⟩
  have hk := id_of_mem_zipIdx hcell
  have hk' := id_of_mem_zipIdx (List.mem_of_mem_filter hcell')
  have hvalue := hρ _ _ (.value hn hn' hk hk')
  simp only [filled, ofRows, List.length_map] at hvalue
  simp only [Function.comp, CellView.rename, cellAt, hvalue]

end Extent

end Provenance
