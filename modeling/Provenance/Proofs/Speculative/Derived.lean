import Provenance.Proofs.Speculative.Rows
import Provenance.Proofs.Speculative.Sources

/-!
# Tables that are derived twice

The log has under the rows, the values and the definition of a derived table the edges that its derivation
made (`Run.Derived`). If two runs derive a table over corresponding sources, one of them with further columns
that hold a literal, what has a place in the smaller table owns there what it owns in the wider one
(`Run.ownedBy_rename`), and the further columns hold nothing but the literal (`Run.cells_of_view`).
-/

namespace Provenance

/-- The columns of a plan are a part of those of a wider one, with the same payloads in them. -/
theorem Derive.part_of_widened {E : Entity → Entity → Prop} {l : Scalar} {cols : List Column}
    {plan plan' : List ColumnPlan} {rows rows' : List ComputedRow} {keep : String → Bool}
    (hplan : Plan.Widens l cols plan plan')
    (hkeep : ∀ planned ∈ plan', planned.isComputed = keep planned.column.name)
    (hrows : List.Forall₂ (ComputedRow.Widened E l plan plan') rows rows') :
    Extent.Part keep (plan.map ColumnPlan.column) (plan'.map ColumnPlan.column)
      (rows.map fun row => row.cells.map Prod.fst) (rows'.map fun row => row.cells.map Prod.fst) where
  columns := by
    rw [hplan.computed, List.filter_map]
    exact congrArg (List.map ColumnPlan.column) (List.filter_congr hkeep)
  rows := by
    rw [List.forall₂_map_left_iff, List.forall₂_map_right_iff]
    refine hrows.imp fun row row' hrow => ?_
    have hfilter : (plan'.zip row'.cells).filter
        ((fun cell => keep cell.1.name) ∘ Prod.map ColumnPlan.column Prod.fst) =
        (plan'.zip row'.cells).filter fun cell => cell.1.isComputed :=
      List.filter_congr fun cell hcell => (hkeep cell.1 (List.of_mem_zip hcell).1).symm
    rw [List.zip_map, List.zip_map, List.filter_map, hfilter]
    exact hrow.cells.computed.map_eq fun cell cell' ⟨hplanned, hpayload, _⟩ =>
      Prod.ext (congrArg ColumnPlan.column hplanned) hpayload

namespace Run

/-- A derived table is committed in a run, with rows that were computed from its sources. -/
structure Derived (r : Run) (before after : List Commit) (c : Commit) (creation : Creation)
    (sources : List SourceTable) (plan : List ColumnPlan) (frames : List RowFrame)
    (rows : List ComputedRow) : Prop where
  wellFormed : r.setup.catalog.WellFormed
  made : r.state.MadeOf r.setup (before ++ c :: after)
  follows : c.Follows r.setup before
  computed : c.ComputedFrom r.setup before creation sources plan frames rows

/-! ## Edges of a derived table -/

namespace Derived

variable {r : Run} {before after : List Commit} {c : Commit} {creation : Creation}
  {sources : List SourceTable} {plan : List ColumnPlan} {frames : List RowFrame} {rows : List ComputedRow}
  {row : ComputedRow} {n : Nat}
  (h : r.Derived before after c creation sources plan frames rows)
include h

theorem origin : c.draft.extent.populated.origin = .derived := h.follows.populates.derived h.computed.derived

theorem extent : c.draft.extent = .filled c.draft.extent.populated
    ((plan.map ColumnPlan.column).map Column.id) (rows.map fun row => row.cells.map Prod.fst) :=
  (h.computed.laid h.origin).extent

theorem columns : c.draft.extent.columns = plan.map fun column => column.column.id :=
  congrArg Extent.columns h.computed.extent_eq

theorem length_rows : c.draft.extent.rows.length = rows.length := by
  rw [h.extent, Extent.length_rows_filled, List.length_map]

theorem mem_columns : ∀ col ∈ plan.map ColumnPlan.column, col ∈ r.setup.catalog.columnsOf c.table.id :=
  fun _ hcol => (Plan.sublist_of_columns h.computed.planned).subset hcol

theorem tabulate : Derive.tabulate r.setup.catalog r.setup.functions r.setup.settings.policy c.table creation
    sources = .ok (plan, rows) := by
  have hrows : frames.mapM (Derive.compute r.setup.catalog r.setup.functions plan) = .ok rows :=
    List.mapM_eq_ok_iff.2 (h.computed.fills.imp fun _ _ => Derive.compute_eq_ok_iff.2)
  unfold Derive.tabulate
  rw [h.computed.planned, Except.bind_of_ok rfl, h.computed.made, Except.bind_of_ok rfl, hrows]
  rfl

omit h in
private theorem place_mem (hrow : (row, n) ∈ rows.zipIdx) :
    (row.cells.map Prod.fst, n) ∈ (rows.map fun row => row.cells.map Prod.fst).zipIdx := by
  rw [List.zipIdx_map]
  exact List.mem_map_of_mem hrow

/-- The log has under a row the edges to its sources. -/
theorem ownedBy_row (hrow : (row, n) ∈ rows.zipIdx) :
    r.state.log.ownedBy (Draft.rowId c.draft.extent.populated.id.number plan.length n) =
      row.sources.map fun e =>
        ⟨⟨.derivedRow, Draft.rowId c.draft.extent.populated.id.number plan.length n⟩, .rowSource, e⟩ := by
  let p := c.draft.extent.populated
  have hentity := Extent.row_entity_mem_filled p (plan.map fun column => column.column.id) (place_mem hrow)
  rw [← h.computed.extent_eq, List.length_map] at hentity
  have hid : p.id.number ≤ (Draft.rowId p.id.number plan.length n).number := by
    simp only [Draft.rowId]
    omega
  refine (h.made.ownedBy_eq h.wellFormed List.mem_append_cons_self hentity).trans ?_
  exact (h.computed.filter_edges_eq h.follows hid).trans
    (ComputedRow.filter_edges_of_row h.computed.width hrow)

/-- The log has under a value the edges to the values that were read for it. -/
theorem ownedBy_value {cell : Scalar × List Entity} {k : Nat} (hrow : (row, n) ∈ rows.zipIdx)
    (hcell : (cell, k) ∈ row.cells.zipIdx) :
    r.state.log.ownedBy (Draft.valueId c.draft.extent.populated.id.number plan.length n k) =
      cell.2.map fun e =>
        ⟨⟨.evaluatedValue, Draft.valueId c.draft.extent.populated.id.number plan.length n k⟩,
          .valueSource, e⟩ := by
  let p := c.draft.extent.populated
  have hk : k < row.cells.length := List.snd_lt_of_mem_zipIdx hcell
  have hk' : k < (plan.map fun column => column.column.id).length := by
    rw [List.length_map]
    exact Nat.lt_of_lt_of_le hk (h.computed.width row (List.fst_mem_of_mem_zipIdx hrow))
  have hentity := Extent.value_entity_mem_filled p (plan.map fun column => column.column.id)
    (place_mem hrow) hk' (by rwa [List.length_map])
  rw [← h.computed.extent_eq, List.length_map] at hentity
  have hid : p.id.number ≤ (Draft.valueId p.id.number plan.length n k).number := by
    simp only [Draft.valueId]
    omega
  refine (h.made.ownedBy_eq h.wellFormed List.mem_append_cons_self hentity).trans ?_
  exact (h.computed.filter_edges_eq h.follows hid).trans
    (ComputedRow.filter_edges_of_value h.computed.width hrow hcell)

/-- The log has under a definition the edges of the definition. -/
theorem ownedBy_definition {e : Entity} (he : r.setup.catalog.Defines c.table e) :
    r.state.log.ownedBy e.id =
      (if r.setup.settings.recordDefinitions then Derive.definitionEdges creation plan else []).filter
        fun edge => edge.owner.id = e.id := by
  have hlt := h.follows.above e (he.mem_entities h.follows.known)
  have hrows : (rows.zipIdx.flatMap fun row => row.1.edges c.draft.extent.populated
      (plan.map fun column => column.column.id).length row.2).filter
        (fun edge => edge.owner.id = e.id) = [] := by
    refine List.filter_eq_nil_iff.2 fun edge hedge howner => ?_
    obtain ⟨row, hrow, hedge⟩ := List.mem_flatMap.1 hedge
    have hwidth := h.computed.width row.1 (List.fst_mem_of_mem_zipIdx hrow)
    rw [List.length_map] at hedge
    obtain ⟨k, -, hnumber⟩ := ComputedRow.inRow_of_mem_edges hedge hwidth
    rw [of_decide_eq_true howner] at hnumber
    omega
  rw [h.made.ownedBy_of_owns h.wellFormed List.mem_append_cons_self (.inl he), h.computed.draft]
  unfold Draft.derived
  rw [List.filter_append, hrows, List.append_nil]

/-- A column that is not planned has no edges of its definition. -/
theorem ownedBy_of_not_planned {col : Column} (hcol : col ∈ r.setup.catalog.columnsOf c.table.id)
    (hplan : ∀ planned ∈ plan, planned.column ≠ col) : r.state.log.ownedBy col.id = [] := by
  have hdefines : r.setup.catalog.Defines c.table col.entity := .inr ⟨col, hcol, rfl⟩
  have hcolumn := (Catalog.mem_columnsOf.1 hcol).1
  rw [← col.entity_id, h.ownedBy_definition hdefines, col.entity_id]
  refine List.filter_eq_nil_iff.2 fun edge hedge howner => ?_
  have howner : edge.owner.id = col.id := of_decide_eq_true howner
  split at hedge
  case isFalse => cases hedge
  rcases Derive.cases_of_mem_definitionEdges hedge with ⟨hcreation, -⟩ | ⟨planned, hplanned, hentity, -⟩
  · rw [hcreation] at howner
    exact h.wellFormed.id_not_mem_columns h.follows.known (Table.creation_id_mem h.computed.derived) hcolumn
      howner.symm
  · rw [hentity, Column.entity_id] at howner
    have hknown := (Catalog.mem_columnsOf.1 (h.mem_columns _ (List.mem_map_of_mem hplanned))).1
    exact hplan planned hplanned (List.inj_on_of_nodup_map h.wellFormed.nodup_columnIds hknown hcolumn howner)

/-- The sources are bound as they were when the table was derived. -/
theorem bound :
    creation.approach.sourceTables.mapM (bindSource r.setup.catalog r.state.store) = .ok sources :=
  bindSources_of_computed h.wellFormed h.made h.computed

end Derived

/-- What is committed for a derived table was computed from its sources. -/
theorem exists_derived {r : Run} {cs : List Commit} {c : Commit} {creation : Creation}
    (hwf : r.setup.catalog.WellFormed) (h : r.state.MadeOf r.setup cs) (hc : c ∈ cs)
    (hcreation : c.table.creation = some creation) :
    ∃ before after sources plan frames rows,
      r.Derived before after c creation sources plan frames rows := by
  obtain ⟨before, after, rfl, follows⟩ := h.history.exists_follows hc
  rcases follows.cases_of_staged with ⟨_, hsupplied⟩ | ⟨_, sources, plan, frames, rows, hcomputed⟩
  · cases hsupplied.supplied.symm.trans hcreation
  · cases hcomputed.derived.symm.trans hcreation
    exact ⟨before, after, sources, plan, frames, rows, hwf, h, follows, hcomputed⟩

/-! ## A table that is derived in two runs -/

section

variable {r r' : Run} {before before' after after' : List Commit} {c c' : Commit} {creation : Creation}
  {sources sources' : List SourceTable} {plan plan' : List ColumnPlan} {frames frames' : List RowFrame}
  {rows rows' : List ComputedRow} {E : Entity → Entity → Prop} {ρ : Id → Id} {l : Scalar} {cols : List Column}
  (h : r.Derived before after c creation sources plan frames rows)
  (h' : r'.Derived before' after' c' creation sources' plan' frames' rows')
  (hplan : Plan.Widens l cols plan plan')
  (hrows : List.Forall₂ (ComputedRow.Widened E l plan plan') rows rows')
  (hmeets : ∀ e e', c.draft.extent.Meets c'.draft.extent e e' → e' = e.rename ρ)
  (hρ : ∀ e e', E e e' → e' = e.rename ρ)
include h h' hrows

include hmeets in
theorem rename_rowId {n : Nat} (hn : n < rows.length) :
    Entity.rename ρ ⟨.derivedRow, Draft.rowId c.draft.extent.populated.id.number plan.length n⟩ =
      ⟨.derivedRow, Draft.rowId c'.draft.extent.populated.id.number plan'.length n⟩ := by
  have hn' : n < rows'.length := hrows.length_eq ▸ hn
  have hrow := hmeets _ _ (.row (h.length_rows.symm ▸ hn) (h'.length_rows.symm ▸ hn'))
  simp only [h.origin, h'.origin, h.columns, h'.columns, List.length_map] at hrow
  exact hrow.symm

include hmeets in
theorem rename_valueId {n k k' : Nat} {planned : ColumnPlan} (hn : n < rows.length)
    (hk : plan[k]? = some planned) (hk' : plan'[k']? = some planned) :
    Entity.rename ρ ⟨.evaluatedValue, Draft.valueId c.draft.extent.populated.id.number plan.length n k⟩ =
      ⟨.evaluatedValue, Draft.valueId c'.draft.extent.populated.id.number plan'.length n k'⟩ := by
  have hn' : n < rows'.length := hrows.length_eq ▸ hn
  have hcolumn : c.draft.extent.columns[k]? = some planned.column.id := by
    rw [h.columns, List.getElem?_map, hk]
    rfl
  have hcolumn' : c'.draft.extent.columns[k']? = some planned.column.id := by
    rw [h'.columns, List.getElem?_map, hk']
    rfl
  have hvalue := hmeets _ _ (.value (h.length_rows.symm ▸ hn) (h'.length_rows.symm ▸ hn') hcolumn hcolumn')
  simp only [h.origin, h'.origin, h.columns, h'.columns, List.length_map] at hvalue
  exact hvalue.symm

include hmeets hρ

private theorem ownedBy_rename_row {row : ComputedRow} {n : Nat} (hrow : (row, n) ∈ rows.zipIdx) :
    r'.state.log.ownedBy (ρ (Draft.rowId c.draft.extent.populated.id.number plan.length n)) =
      (r.state.log.ownedBy (Draft.rowId c.draft.extent.populated.id.number plan.length n)).map
        (Edge.rename ρ) := by
  obtain ⟨⟨row', n'⟩, hrow', hwidened, hn⟩ := (hrows.zipIdx 0).exists_of_mem_left hrow
  obtain rfl : n = n' := hn
  have hentity := rename_rowId h h' hrows hmeets (List.snd_lt_of_mem_zipIdx hrow)
  have hid : ρ (Draft.rowId _ _ n) = Draft.rowId _ _ n := congrArg Entity.id hentity
  rw [hid, h'.ownedBy_row hrow', h.ownedBy_row hrow, List.map_map]
  refine (hwidened.sources.map_eq fun e e' he => ?_).symm
  simp only [Function.comp, Edge.rename, hentity, hρ _ _ he]

private theorem ownedBy_rename_value {row : ComputedRow} {n k : Nat} {planned : ColumnPlan}
    {cell : Scalar × List Entity} (hrow : (row, n) ∈ rows.zipIdx) (hplanned : plan[k]? = some planned)
    (hcell : row.cells[k]? = some cell) :
    r'.state.log.ownedBy (ρ (Draft.valueId c.draft.extent.populated.id.number plan.length n k)) =
      (r.state.log.ownedBy (Draft.valueId c.draft.extent.populated.id.number plan.length n k)).map
        (Edge.rename ρ) := by
  obtain ⟨⟨row', n'⟩, hrow', hwidened, hn⟩ := (hrows.zipIdx 0).exists_of_mem_left hrow
  obtain rfl : n = n' := hn
  have hplace : ((planned, cell), k) ∈ (plan.zip row.cells).zipIdx :=
    List.mem_zipIdx_iff_getElem?.2 (List.getElem?_zip_eq_some.2 ⟨hplanned, hcell⟩)
  obtain ⟨⟨⟨planned', cell'⟩, k'⟩, hplace', hsame, -, hsources⟩ :=
    hwidened.cells.computed.zipIdx_filter.exists_of_mem_left hplace
  obtain rfl : planned = planned' := hsame
  obtain ⟨hplanned', hcell'⟩ :=
    List.getElem?_zip_eq_some.1 (List.mem_zipIdx_iff_getElem?.1 (List.mem_of_mem_filter hplace'))
  have hentity := rename_valueId h h' hrows hmeets (List.snd_lt_of_mem_zipIdx hrow) hplanned hplanned'
  have hid : ρ (Draft.valueId _ _ n k) = Draft.valueId _ _ n k' := congrArg Entity.id hentity
  rw [hid, h'.ownedBy_value hrow' (List.mem_zipIdx_iff_getElem?.2 hcell'),
    h.ownedBy_value hrow (List.mem_zipIdx_iff_getElem?.2 hcell), List.map_map]
  refine (hsources.map_eq fun e e' he => ?_).symm
  simp only [Function.comp, Edge.rename, hentity, hρ _ _ he]

/-- Rows and values own edges in the wider table that correspond to those that they own in the other. -/
theorem ownedBy_rename {e : Entity} (he : e ∈ c.draft.extent.entities) :
    r'.state.log.ownedBy (ρ e.id) = (r.state.log.ownedBy e.id).map (Edge.rename ρ) := by
  rw [h.computed.extent_eq] at he
  rcases List.mem_append.1 he with he | he
  · obtain ⟨row, hrow, rfl⟩ := List.mem_map.1 he
    obtain ⟨n, hn, rfl⟩ := Extent.mem_rows_filled hrow
    rw [List.length_map] at hn
    have hmem : (rows[n], n) ∈ rows.zipIdx := List.mem_zipIdx_iff_getElem?.2 (List.getElem?_eq_getElem hn)
    have howned := ownedBy_rename_row h h' hrows hmeets hρ hmem
    simp only [Row.entity, Row.create, List.length_map]
    exact howned
  · obtain ⟨v, hv, rfl⟩ := List.mem_map.1 he
    obtain ⟨n, k, _, _, _, hrow, hcolumn, hpayload, rfl⟩ := Extent.place_of_mem_values_filled hv
    rw [List.getElem?_map] at hrow hcolumn
    obtain ⟨computed, hcomputed, rfl⟩ := Option.map_eq_some_iff.1 hrow
    obtain ⟨planned, hplanned, rfl⟩ := Option.map_eq_some_iff.1 hcolumn
    rw [List.getElem?_map] at hpayload
    obtain ⟨cell, hcell, rfl⟩ := Option.map_eq_some_iff.1 hpayload
    have hmem : (computed, n) ∈ rows.zipIdx := List.mem_zipIdx_iff_getElem?.2 hcomputed
    have howned := ownedBy_rename_value h h' hrows hmeets hρ hmem hplanned hcell
    simp only [Value.entity, Value.filled, List.length_map]
    exact howned

omit h hmeets hρ

include hplan in
/-- In every row of the wider table the columns that are filled hold the literal and own no edge. -/
theorem cells_of_view {keep : String → Bool}
    (hkeep : ∀ planned ∈ plan', planned.isComputed = keep planned.column.name)
    {name : String} {row : RowView} (hrow : row ∈ (c'.draft.extent.view r'.setup.catalog name).rows) :
    row.cells.map CellView.column = cols.map Column.name ∧
      ∀ cell ∈ row.cells, keep cell.column = false →
        cell.payload = l ∧ r'.state.log.ownedBy cell.value.id = [] := by
  have hcols : ∀ col ∈ plan'.map ColumnPlan.column, col ∈ r'.setup.catalog.columns := fun col hcol =>
    (Catalog.mem_columnsOf.1 (h'.mem_columns col hcol)).1
  rw [h'.extent, Extent.view_filled_of_columns h'.wellFormed hcols] at hrow
  obtain ⟨⟨_, n⟩, hplace, rfl⟩ := List.mem_map.1 hrow
  rw [List.zipIdx_map] at hplace
  obtain ⟨⟨row', _⟩, hrow', heq⟩ := List.mem_map.1 hplace
  cases heq
  obtain ⟨⟨row, _⟩, -, hwidened, -⟩ := (hrows.zipIdx 0).exists_of_mem_right hrow'
  constructor
  · rw [List.map_map]
    change ((plan'.map ColumnPlan.column).zip (row'.cells.map Prod.fst)).zipIdx.map
      (Column.name ∘ Prod.fst ∘ Prod.fst) = _
    rw [← List.map_map, ← List.map_map, List.zipIdx_map_fst, List.map_fst_zip, hplan.columns]
    rw [List.length_map, List.length_map, hwidened.cells.width']
  · intro cell hcell hfilled
    obtain ⟨⟨⟨col, payload⟩, k⟩, hmem, rfl⟩ := List.mem_map.1 hcell
    obtain ⟨hcol, hpayload⟩ := List.getElem?_zip_eq_some.1 (List.mem_zipIdx_iff_getElem?.1 hmem)
    rw [List.getElem?_map] at hcol hpayload
    obtain ⟨planned, hplanned, rfl⟩ := Option.map_eq_some_iff.1 hcol
    obtain ⟨cell, hcell, rfl⟩ := Option.map_eq_some_iff.1 hpayload
    have hzip : (planned, cell) ∈ plan'.zip row'.cells :=
      List.mem_of_getElem? (List.getElem?_zip_eq_some.2 ⟨hplanned, hcell⟩)
    have hcomputed : planned.isComputed = false := (hkeep _ (List.mem_of_getElem? hplanned)).trans hfilled
    obtain rfl : cell = (l, []) := hwidened.cells.filled _ hzip hcomputed
    refine ⟨rfl, ?_⟩
    have howned := h'.ownedBy_value hrow' (List.mem_zipIdx_iff_getElem?.2 hcell)
    simp only [Extent.cellAt, List.length_map]
    exact howned

end

end Run

end Provenance
