import Provenance.Proofs.Lineage.Coverage
import Provenance.Proofs.Lineage.Exactness
import Provenance.Proofs.Lineage.Reports

/-!
# Lineage of values within that of rows

A row of a derived table owns the edges to the rows of its frame, and these belong to the tables that its own
table is derived from (`Run.RowLineage`). What is read for a value of the row is read from the places of the
frame, so it stands in one of these rows. Main statement: `Run.Reachable.row_lineage`.
-/

namespace Provenance

/-- A row of a source table is one of the materialization of a table that is read, and its cells are values
of that row. -/
theorem exists_row_of_bindSources {c : Catalog} {store : Store} {t : Table} {creation : Creation}
    {sources : List SourceTable} {source : SourceTable} {r : SourceRow} (hwf : c.WellFormed)
    (ht : t ∈ c.tables) (hc : t.creation = some creation)
    (hbound : creation.approach.sourceTables.mapM (bindSource c store) = .ok sources)
    (hsource : source ∈ sources) (hr : r ∈ source.rows) :
    ∃ t', c.Reads t t' ∧ ∃ p, store.populatedFor? t'.id = some p ∧ ∃ row ∈ store.rowsOf p.id,
      r.row = row.entity ∧ ∀ x ∈ r.cells, ∃ v ∈ store.valuesOf row.id, x.2 = ⟨v.entity, v.payload⟩ := by
  obtain ⟨name, hname, hbind⟩ := (List.mapM_eq_ok_iff.1 hbound).exists_of_mem_right hsource
  obtain ⟨t', htable, hbound⟩ := Except.bind_eq_ok_iff.1 hbind
  obtain ⟨ht', rfl⟩ := Catalog.mem_of_table htable
  obtain ⟨u, hu, hsame, hentity⟩ := (hwf.creations t ht creation hc).named t'.name hname
  have hreads : c.Reads t u := ⟨hu, by simpa [Table.sources, hc] using hentity⟩
  rw [List.inj_on_of_nodup_map hwf.names hu ht' hsame] at hreads
  exact ⟨t', hreads, SourceTable.exists_of_bind hbound hr⟩

/-- What is denoted in a scope over some tables stands in a row that the scope has. -/
theorem RowFrame.Framed.exists_of_mem_denoted {sources : List SourceTable} {frame : RowFrame} {e : Expr}
    {x : Entity} (h : frame.Framed sources) (hx : x ∈ e.denoted frame.scope) :
    ∃ t ∈ sources, ∃ r ∈ t.rows, r.row ∈ frame.sourceRows ∧ ∃ cell ∈ r.cells, cell.2.value = x := by
  obtain ⟨b, hb, name, -, hx⟩ := Expr.exists_of_mem_denoted hx
  obtain ⟨t, r, hslot, -, cell, hcell, hvalue⟩ := Binding.exists_slot_of_mem_denoted hx
  obtain ⟨ht, hr⟩ := h.bound b hb _ hslot
  refine ⟨t, ht, r, hr r rfl, ?_, _, hcell, hvalue⟩
  rw [h.ofScope]
  apply mem_distinct.2
  exact List.mem_flatMap.2 ⟨b, hb, List.mem_filterMap.2 ⟨_, hslot, rfl⟩⟩

namespace Commit.ComputedFrom

variable {setup : Setup} {cs : List Commit} {c : Commit} {creation : Creation} {sources : List SourceTable}
  {plan : List ColumnPlan} {frames : List RowFrame} {rows : List ComputedRow} {row : Row}

theorem width (h : c.ComputedFrom setup cs creation sources plan frames rows) :
    ∀ computed ∈ rows, computed.cells.length ≤ plan.length := by
  intro computed hcomputed
  obtain ⟨_, -, -, hcells⟩ := h.fills.exists_of_mem_right hcomputed
  exact Nat.le_of_eq hcells.length_eq.symm

/-- What has an identity of its own in a computed table owns edges of rows and values only. -/
theorem filter_edges_eq (h : c.ComputedFrom setup cs creation sources plan frames rows)
    (follows : c.Follows setup cs) {id : Id} (hid : c.draft.extent.populated.id.number ≤ id.number) :
    c.draft.edges.filter (fun edge => edge.owner.id = id) =
      (rows.zipIdx.flatMap fun row => row.1.edges c.draft.extent.populated plan.length row.2).filter
        fun edge => edge.owner.id = id := by
  have hcols : ∀ col ∈ setup.catalog.columnsOf c.table.id, col ∈ setup.catalog.columns := fun _ hcol =>
    (Catalog.mem_columnsOf.1 hcol).1
  rw [congrArg Draft.edges h.draft,
    Derive.filter_edges_derived follows.known h.derived follows.above h.planned hcols hid, List.length_map]

/-- A row of a computed table has the frame with its number, and owns the edges to the rows of that frame. -/
theorem edges_of_row (h : c.ComputedFrom setup cs creation sources plan frames rows)
    (follows : c.Follows setup cs) (hrow : row ∈ c.draft.extent.rows) :
    row.id = Draft.rowId c.draft.extent.populated.id.number plan.length row.number ∧
      ∃ frame, frames[row.number]? = some frame ∧
        c.draft.edges.filter (fun edge => edge.owner.id = row.id) =
          frame.sourceRows.map fun x => ⟨row.entity, .rowSource, x⟩ := by
  rw [h.extent_eq] at hrow
  obtain ⟨n, hn, rfl⟩ := Extent.mem_rows_filled hrow
  rw [List.length_map] at hn ⊢
  have hcomputed := List.getElem?_eq_getElem hn
  obtain ⟨frame, hframe, hsources, -⟩ := h.fills.exists_of_getElem?_right hcomputed
  have hid : c.draft.extent.populated.id.number ≤
      (Draft.rowId c.draft.extent.populated.id.number plan.length n).number := by
    simp only [Draft.rowId]
    omega
  have hplace : (rows[n], n) ∈ rows.zipIdx := List.mem_zipIdx_iff_getElem?.2 hcomputed
  refine ⟨rfl, frame, hframe, ?_⟩
  rw [Row.entity, Row.create, follows.populates.derived h.derived, ← hsources]
  exact (h.filter_edges_eq follows hid).trans (ComputedRow.filter_edges_of_row h.width hplace)

theorem rowSource_mem {n : Nat} {frame : RowFrame} {x : Entity}
    (h : c.ComputedFrom setup cs creation sources plan frames rows) (follows : c.Follows setup cs)
    (hframe : frames[n]? = some frame) (hrow : row ∈ c.draft.extent.rows)
    (hid : row.id = Draft.rowId c.draft.extent.populated.id.number plan.length n)
    (hx : x ∈ frame.sourceRows) : ⟨row.entity, .rowSource, x⟩ ∈ c.draft.edges := by
  obtain ⟨hnumber, frame', hframe', hedges⟩ := h.edges_of_row follows hrow
  rw [Draft.rowId_inj (hnumber.symm.trans hid), hframe] at hframe'
  cases hframe'
  have hmap : (⟨row.entity, .rowSource, x⟩ : Edge) ∈
      frame.sourceRows.map fun y => ⟨row.entity, .rowSource, y⟩ := List.mem_map_of_mem hx
  rw [← hedges] at hmap
  exact List.mem_of_mem_filter hmap

end Commit.ComputedFrom

namespace Run

/-- The lineage of a row of a derived table, told by the frame of the row: its edges lead to the rows that the
frame has, each once and in the order in which they are first met. All of these belong to tables that the
table is derived from, as they are materialized. -/
structure RowLineage (r : Run) (t : Table) (row : Row) (frame : RowFrame) : Prop where
  edges : r.state.log.ownedBy row.id = frame.sourceRows.map fun x => ⟨row.entity, .rowSource, x⟩
  mem_iff : ∀ x, x ∈ frame.sourceRows ↔ ∃ b ∈ frame.scope.partition, x ∈ b.sourceRows
  nodup : frame.sourceRows.Nodup
  order : frame.sourceRows.Pairwise fun x y =>
    (frame.scope.partition.flatMap Binding.sourceRows).idxOf x <
      (frame.scope.partition.flatMap Binding.sourceRows).idxOf y
  sources : ∀ x ∈ frame.sourceRows, ∃ t', r.setup.catalog.Reads t t' ∧
    ∃ p, r.state.store.populatedFor? t'.id = some p ∧ ∃ row' ∈ r.state.store.rowsOf p.id, row'.entity = x

/-- A row belongs to the materialization of a derived table. -/
structure RowOf (r : Run) (t : Table) (creation : Creation) (row : Row) : Prop where
  known : t ∈ r.setup.catalog.tables
  derived : t.creation = some creation
  populated : ∃ p ∈ r.state.store.populated, p.id = row.populated ∧ p.table = t.id

variable {r : Run} {cs : List Commit} {row : Row}

/-- A row of a store was committed with its table. -/
theorem exists_commit_of_row (h : r.state.MadeOf r.setup cs) (hrow : row ∈ r.state.store.rows) :
    ∃ before c after, cs = before ++ c :: after ∧ c.Follows r.setup before ∧ row ∈ c.draft.extent.rows := by
  obtain ⟨x, hx, hrow⟩ := List.mem_flatMap.1 hrow
  obtain ⟨c, hc, rfl⟩ := h.exists_of_mem_extents hx
  obtain ⟨before, after, hcs, follows⟩ := h.history.exists_follows hc
  exact ⟨before, c, after, hcs, follows, hrow⟩

/-- The sources of a computed table are bound in a run as they were when the table was computed. -/
theorem bindSources_of_computed {before after : List Commit} {c : Commit} {creation : Creation}
    {sources : List SourceTable} {plan : List ColumnPlan} {frames : List RowFrame} {rows : List ComputedRow}
    (hwf : r.setup.catalog.WellFormed) (h : r.state.MadeOf r.setup (before ++ c :: after))
    (hcomputed : c.ComputedFrom r.setup before creation sources plan frames rows) :
    creation.approach.sourceTables.mapM (bindSource r.setup.catalog r.state.store) = .ok sources := by
  rw [h.store, h.history.bindSources_eq hwf hcomputed.derived]
  exact hcomputed.bound

section

variable {before after : List Commit} {c : Commit} {creation : Creation} {sources : List SourceTable}
  {plan : List ColumnPlan} {frames : List RowFrame} {rows : List ComputedRow} {n : Nat} {frame : RowFrame}

/-- What is read in a frame is a value of a row that the frame has. -/
theorem exists_value_of_denoted {e : Expr} {x : Entity} (hwf : r.setup.catalog.WellFormed)
    (h : r.state.MadeOf r.setup (before ++ c :: after)) (follows : c.Follows r.setup before)
    (hcomputed : c.ComputedFrom r.setup before creation sources plan frames rows)
    (hframe : frame ∈ frames) (hx : x ∈ e.denoted frame.scope) :
    ∃ w ∈ r.state.store.values, ∃ row ∈ r.state.store.rows,
      w.entity = x ∧ w.row = row.id ∧ row.entity ∈ frame.sourceRows := by
  have hframed := Approach.framed_of_mem_createRows hcomputed.made hframe
  obtain ⟨source, hsource, y, hy, hin, cell, hcell, hvalue⟩ := hframed.exists_of_mem_denoted hx
  obtain ⟨t, -, p, -, row, hrow, hyrow, hcells⟩ := exists_row_of_bindSources hwf follows.known
    hcomputed.derived (bindSources_of_computed hwf h hcomputed) hsource hy
  obtain ⟨w, hw, hcellvalue⟩ := hcells cell hcell
  obtain ⟨hmem, hwrow⟩ := List.mem_filter.1 hw
  refine ⟨w, hmem, row, Store.mem_rows_of_mem_rowsOf hrow, ?_, of_decide_eq_true hwrow, hyrow ▸ hin⟩
  rw [← hvalue, hcellvalue]

/-- The row of a computed value owns the edges to the rows of the frame with its number. -/
theorem exists_row_of_value {v : Value} (hwf : r.setup.catalog.WellFormed)
    (h : r.state.MadeOf r.setup (before ++ c :: after)) (follows : c.Follows r.setup before)
    (hcomputed : c.ComputedFrom r.setup before creation sources plan frames rows)
    (hframe : frames[n]? = some frame) (hv : v ∈ c.draft.extent.values)
    (hvrow : v.row = Draft.rowId c.draft.extent.populated.id.number plan.length n) :
    ∃ row ∈ r.state.store.rows, v.row = row.id ∧
      ∀ x ∈ frame.sourceRows, ⟨row.entity, .rowSource, x⟩ ∈ r.state.log.edges := by
  have hc : c ∈ before ++ c :: after := by simp
  have hextent := h.mem_extents hc
  have hsound := h.sound hwf
  obtain ⟨row, hrow, hid⟩ := hsound.row_of_mem_values hextent hv
  refine ⟨row, List.mem_flatMap.2 ⟨_, hextent, hrow⟩, hid, fun x hx => ?_⟩
  exact h.mem_edges_iff.2 ⟨c, hc, hcomputed.rowSource_mem follows hframe hrow (hid.symm.trans hvrow) hx⟩

/-- The edges of a row that was computed lead to the rows of its frame. -/
theorem rowLineage_of_computed (hwf : r.setup.catalog.WellFormed)
    (h : r.state.MadeOf r.setup (before ++ c :: after)) (follows : c.Follows r.setup before)
    (hcomputed : c.ComputedFrom r.setup before creation sources plan frames rows)
    (hrow : row ∈ c.draft.extent.rows) (hframe : frames[row.number]? = some frame) :
    r.RowLineage c.table row frame := by
  have hframed := Approach.framed_of_mem_createRows hcomputed.made (List.mem_of_getElem? hframe)
  have hdistinct : frame.sourceRows = distinct (frame.scope.partition.flatMap Binding.sourceRows) :=
    congrArg RowFrame.sourceRows hframed.ofScope
  refine ⟨?_, fun x => ?_, hframed.nodup_sourceRows, ?_, fun x hx => ?_⟩
  · obtain ⟨-, frame', hframe', hedges⟩ := hcomputed.edges_of_row follows hrow
    cases hframe.symm.trans hframe'
    rw [← hedges]
    exact h.ownedBy_eq hwf (by simp) (e := row.entity) (List.mem_append_left _ (List.mem_map_of_mem hrow))
  · rw [hdistinct, mem_distinct, List.mem_flatMap]
  · rw [hdistinct]
    exact pairwise_idxOf_distinct _
  · obtain ⟨source, hsource, y, hy, rfl⟩ := hframed.exists_of_mem_sourceRows hx
    obtain ⟨t, hreads, p, hp, row', hrow', hentity, -⟩ := exists_row_of_bindSources hwf follows.known
      hcomputed.derived (bindSources_of_computed hwf h hcomputed) hsource hy
    exact ⟨t, hreads, p, hp, row', hrow', hentity.symm⟩

end

/-- A value that was read for another one stands in a row that the row of that one was made from. -/
theorem rowSource_of_valueSource (hwf : r.setup.catalog.WellFormed) (h : r.state.MadeOf r.setup cs)
    {edge : Edge} (hedge : edge ∈ r.state.log.edges) (hkind : edge.kind = .valueSource) :
    ∃ v ∈ r.state.store.values, ∃ w ∈ r.state.store.values, ∃ row ∈ r.state.store.rows,
      ∃ row' ∈ r.state.store.rows, v.entity = edge.owner ∧ w.entity = edge.target ∧ v.row = row.id ∧
        w.row = row'.id ∧ ⟨row.entity, .rowSource, row'.entity⟩ ∈ r.state.log.edges := by
  obtain ⟨c, hc, hmem⟩ := h.mem_edges_iff.1 hedge
  obtain ⟨before, after, rfl, follows⟩ := h.history.exists_follows hc
  rcases follows.cases_of_staged with ⟨rows, hsupplied⟩ | ⟨creation, sources, plan, frames, rows, hcomputed⟩
  · rw [hsupplied.draft] at hmem
    cases hmem
  obtain ⟨n, frame, hframe, v, hv, howner, hvrow, col, e, -, -, htarget⟩ :=
    hcomputed.exists_compute_in_frame (follows.populates.derived hcomputed.derived) hmem hkind
  obtain ⟨w, hw, row', hrow', hwentity, hwrow, hin⟩ :=
    exists_value_of_denoted hwf h follows hcomputed (List.mem_of_getElem? hframe) htarget
  obtain ⟨row, hrow, hid, howned⟩ := exists_row_of_value hwf h follows hcomputed hframe hv hvrow
  exact ⟨v, h.mem_values hc hv, w, hw, row, hrow, row', hrow', howner, hwentity, hid, hwrow, howned _ hin⟩

/-- A row of a derived table has a frame, which tells its lineage. -/
theorem rowLineage_of_derived (hwf : r.setup.catalog.WellFormed) (h : r.state.MadeOf r.setup cs)
    (hrow : row ∈ r.state.store.rows) (horigin : row.origin = .derived) :
    ∃ t creation, r.RowOf t creation row ∧ (∃ frame, r.FrameOf creation row.number frame) ∧
      ∀ frame, r.FrameOf creation row.number frame → r.RowLineage t row frame := by
  obtain ⟨before, c, after, rfl, follows, hmem⟩ := exists_commit_of_row h hrow
  have hcreate : row.populated = c.draft.extent.populated.id ∧
      row.origin = c.draft.extent.populated.origin := by
    obtain ⟨_, _, hfilled⟩ := follows.exists_filledWith hwf
    rw [hfilled.extent] at hmem
    obtain ⟨n, -, rfl⟩ := Extent.mem_rows_filled hmem
    exact ⟨rfl, rfl⟩
  rcases follows.cases_of_staged with ⟨rows, hsupplied⟩ | ⟨creation, sources, plan, frames, rows, hcomputed⟩
  · cases (follows.populates.database hsupplied.supplied).symm.trans (hcreate.2.symm.trans horigin)
  have hnow := bindSources_of_computed hwf h hcomputed
  obtain ⟨-, frame, hframe, -⟩ := hcomputed.edges_of_row follows hmem
  have hextent : c.draft.extent ∈ r.state.store.extents := h.mem_extents (by simp)
  refine ⟨c.table, creation, ⟨follows.known, hcomputed.derived, c.draft.extent.populated,
    List.mem_map_of_mem hextent, hcreate.1.symm, follows.populates.table⟩,
    ⟨frame, sources, frames, hnow, hcomputed.made, hframe⟩, ?_⟩
  -- The sources determine the frames, so this is the frame that the row was computed in.
  rintro frame' ⟨sources', frames', hnow', hmade', hframe'⟩
  cases hnow.symm.trans hnow'
  cases hcomputed.made.symm.trans hmade'
  exact rowLineage_of_computed hwf h follows hcomputed hmem hframe'

/-- In a reachable run a value that was read for another one stands in a row that the row of that one was made
from. Every row of a derived table has a frame, and its edges lead to exactly the rows of that frame, each
once and in the order in which they are first met, all of them rows of tables that its own is derived from. -/
theorem Reachable.row_lineage (h : r.Reachable) :
    (∀ edge ∈ r.state.log.edges, edge.kind = .valueSource →
      ∃ v w row row', r.lookup edge.owner = some (.value v) ∧ r.lookup edge.target = some (.value w) ∧
        r.state.store.row? v.row = some row ∧ r.state.store.row? w.row = some row' ∧
        ⟨row.entity, .rowSource, row'.entity⟩ ∈ r.state.log.edges) ∧
    ∀ row ∈ r.state.store.rows, row.origin = .derived →
      ∃ t creation, r.RowOf t creation row ∧ (∃ frame, r.FrameOf creation row.number frame) ∧
        ∀ frame, r.FrameOf creation row.number frame → r.RowLineage t row frame := by
  obtain ⟨hwf, cs, hmade⟩ := h.exists_madeOf
  have hs := hmade.sound hwf
  refine ⟨fun edge hedge hkind => ?_, fun row hrow horigin => rowLineage_of_derived hwf hmade hrow horigin⟩
  obtain ⟨v, hv, w, hw, row, hrow, row', hrow', howner, htarget, hvrow, hwrow, hmem⟩ :=
    rowSource_of_valueSource hwf hmade hedge hkind
  refine ⟨v, w, row, row', ?_, ?_, ?_, ?_, hmem⟩
  · rw [← howner, lookup_value_eq hs hv]
  · rw [← htarget, lookup_value_eq hs hw]
  · rw [hvrow, hs.row?_of_mem hrow]
  · rw [hwrow, hs.row?_of_mem hrow']

end Run

namespace Sample

/-- The row of a region was made from the rows of both of its sales. -/
theorem row_lineage_total :
    let r := run.after (.materialize "total")
    let row : Row := ⟨⟨19⟩, ⟨18⟩, 0, .derived⟩
    row ∈ r.state.store.rows ∧ ∃ t creation, r.RowOf t creation row ∧
      ∃ frame, r.FrameOf creation 0 frame ∧ r.RowLineage t row frame ∧
        frame.sourceRows = [⟨.databaseRow, ⟨12⟩⟩, ⟨.databaseRow, ⟨15⟩⟩] := by
  intro r row
  have hrow : row ∈ r.state.store.rows := List.mem_of_getElem? (i := 2) rfl
  obtain ⟨-, hrows⟩ := Run.Reachable.row_lineage (.call reachable_run (.materialize "total"))
  obtain ⟨t, creation, hof, ⟨frame, hframe⟩, hlineage⟩ := hrows row hrow rfl
  refine ⟨hrow, t, creation, hof, frame, hframe, hlineage frame hframe, ?_⟩
  have howned : (r.state.log.ownedBy row.id).map Edge.target =
      [⟨.databaseRow, ⟨12⟩⟩, ⟨.databaseRow, ⟨15⟩⟩] := rfl
  rw [(hlineage frame hframe).edges, List.map_map] at howned
  exact (List.map_id _).symm.trans howned

end Sample

end Provenance
