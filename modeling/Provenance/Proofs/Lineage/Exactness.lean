import Provenance.Proofs.Evaluation.Agreement
import Provenance.Proofs.Reachable

/-!
# Lineage is exact

The edges that a computed value owns lead to exactly the values that its expression denotes over the row
it was computed for, each once and in the order of reading. This is so when the table is staged
(`Derive.edges_of_value`), and neither its commit nor anything that comes later changes it. Main statement:
`Run.Reachable.lineage_exact`.
-/

namespace Provenance

namespace Derive

variable {setup : Setup} {store : Store} {p : Populated} {table : Table} {creation : Creation}
  {sources : List SourceTable} {d : Draft} {v : Value} {col : Column} {e : Expr}

/-- A column is computed from its expression if the schema has all speculative columns that it names. -/
theorem eq_compute {policy : SpeculativePolicy} {cols : List Column} {plan : List ColumnPlan}
    {planned : ColumnPlan} (hplan : Plan.columns setup.catalog policy sources table.name cols = .ok plan)
    (hmem : planned ∈ plan) (he : planned.column.expr? = some e)
    (hevaluated : ∀ name ∈ e.cubeColumns, setup.catalog.hasColumn name.toColumn) :
    ∃ col, planned = .compute col e := by
  obtain ⟨-, hcolumn⟩ := Plan.exists_of_mem_columns hplan hmem
  obtain ⟨e', he', ⟨heq, -⟩ | ⟨literal, -, -, name, hname, hlacks⟩⟩ := Plan.cases_of_column hcolumn
  · cases he'.symm.trans he
    exact ⟨_, heq⟩
  · cases he'.symm.trans he
    cases hlacks.symm.trans (hevaluated name hname)

/-- A value of a derived table stands in a row and a column of it. -/
theorem exists_holds_of_mem_values {frames : List RowFrame} {plan : List ColumnPlan}
    {rows : List ComputedRow} {definitions : List Edge}
    (hfills : List.Forall₂ (Fills setup.catalog setup.functions plan) frames rows)
    (hv : v ∈ (Draft.derived p (plan.map fun column => column.column.id) definitions rows).extent.values) :
    ∃ n k row frame planned cell, rows[n]? = some row ∧ frames[n]? = some frame ∧
      row.cells[k]? = some cell ∧ planned ∈ plan ∧
      Holds setup.catalog setup.functions frame planned cell ∧
      v = .filled p plan.length n ((planned.column.id, cell.1), k) := by
  obtain ⟨n, k, _, _, _, hrow, hcolumn, hpayload, rfl⟩ := Extent.place_of_mem_values_filled hv
  rw [List.getElem?_map] at hrow hcolumn
  obtain ⟨row, hrow', rfl⟩ := Option.map_eq_some_iff.1 hrow
  obtain ⟨planned, hplanned, rfl⟩ := Option.map_eq_some_iff.1 hcolumn
  rw [List.getElem?_map] at hpayload
  obtain ⟨cell, hcell, rfl⟩ := Option.map_eq_some_iff.1 hpayload
  obtain ⟨frame, hframe, -, hcells⟩ := hfills.exists_of_getElem?_right hrow'
  obtain ⟨_, hplanned', hholds⟩ := hcells.exists_of_getElem?_right hcell
  cases hplanned.symm.trans hplanned'
  exact ⟨n, k, row, frame, planned, cell, hrow', hframe, hcell, List.mem_of_getElem? hplanned, hholds,
    by rw [List.length_map]⟩

theorem owner_of_mem_definitionEdges {cols : List Column} {policy : SpeculativePolicy}
    {plan : List ColumnPlan} {edge : Edge} (ht : table ∈ setup.catalog.tables)
    (hc : table.creation = some creation)
    (hplan : Plan.columns setup.catalog policy sources table.name cols = .ok plan)
    (hcols : ∀ col ∈ cols, col ∈ setup.catalog.columns) (hedge : edge ∈ definitionEdges creation plan) :
    edge.owner ∈ setup.catalog.entities := by
  rcases cases_of_mem_definitionEdges hedge with ⟨ho, -⟩ | ⟨column, hcolumn, ho, -⟩
  · exact ho ▸ Catalog.creation_entity_mem ht hc
  · exact ho ▸ Catalog.column_entity_mem (hcols _ (Plan.exists_of_mem_columns hplan hcolumn).1)

/-- What has an identity of its own in a staged table owns no edge of the definition. -/
theorem filter_edges_derived {policy : SpeculativePolicy} {cols : List Column} {plan : List ColumnPlan}
    {columns : List Id} {rows : List ComputedRow} {id : Id} (ht : table ∈ setup.catalog.tables)
    (hc : table.creation = some creation)
    (habove : ∀ e ∈ setup.catalog.entities, e.id.number < p.id.number)
    (hplan : Plan.columns setup.catalog policy sources table.name cols = .ok plan)
    (hcols : ∀ col ∈ cols, col ∈ setup.catalog.columns) (hid : p.id.number ≤ id.number) :
    (Draft.derived p columns (if setup.settings.recordDefinitions then definitionEdges creation plan else [])
      rows).edges.filter (fun edge => edge.owner.id = id) =
      (rows.zipIdx.flatMap fun row => row.1.edges p columns.length row.2).filter
        fun edge => edge.owner.id = id := by
  rw [Draft.derived, List.filter_append, List.filter_eq_nil_iff.2 fun edge hedge hown => ?_,
    List.nil_append]
  split at hedge
  · have hlt := habove _ (owner_of_mem_definitionEdges ht hc hplan hcols hedge)
    rw [of_decide_eq_true hown] at hlt
    omega
  · cases hedge

/-- The edges of a value that is computed in a staged table lead to what its expression denotes in the frame
of its row. -/
theorem filter_edges_of_value {policy : SpeculativePolicy} {cols : List Column} {plan : List ColumnPlan}
    {frames : List RowFrame} {frame : RowFrame} {rows : List ComputedRow} {row : ComputedRow} {n k : Nat}
    {result : Evaluated} (hstore : (store.values.map Value.id).Nodup)
    (hbound : ∀ t ∈ sources, ∃ table, SourceTable.bind setup.catalog store table = .ok t)
    (ht : table ∈ setup.catalog.tables) (hc : table.creation = some creation)
    (habove : ∀ e ∈ setup.catalog.entities, e.id.number < p.id.number)
    (hplan : Plan.columns setup.catalog policy sources table.name cols = .ok plan)
    (hcols : ∀ col ∈ cols, col ∈ setup.catalog.columns)
    (hframes : creation.approach.createRows setup.catalog setup.functions sources = .ok frames)
    (hfills : List.Forall₂ (Fills setup.catalog setup.functions plan) frames rows)
    (hframe : frames[n]? = some frame) (hrow : rows[n]? = some row)
    (hresult : e.evaluate setup.catalog setup.functions frame.scope = .ok result)
    (hcell : row.cells[k]? = some (result.value, result.sources)) :
    (Draft.derived p (plan.map fun column => column.column.id)
      (if setup.settings.recordDefinitions then definitionEdges creation plan else []) rows).edges.filter
        (fun edge => edge.owner.id = Draft.valueId p.id.number plan.length n k) =
      (distinct (e.denoted frame.scope)).map fun x =>
        ⟨⟨.evaluatedValue, Draft.valueId p.id.number plan.length n k⟩, .valueSource, x⟩ := by
  have hproduced : frame.scope.Produced setup.catalog setup.functions :=
    .intro hstore hbound hframes (List.mem_of_getElem? hframe)
  have hwidth : ∀ row ∈ rows, row.cells.length ≤ plan.length := by
    intro row hrow
    obtain ⟨_, -, -, hcells⟩ := hfills.exists_of_mem_right hrow
    exact Nat.le_of_eq hcells.length_eq.symm
  have hid : p.id.number ≤ (Draft.valueId p.id.number plan.length n k).number := by
    simp only [Draft.valueId]
    omega
  have hrow : (row, n) ∈ rows.zipIdx := List.mem_zipIdx_iff_getElem?.2 hrow
  have hcell : ((result.value, result.sources), k) ∈ row.cells.zipIdx :=
    List.mem_zipIdx_iff_getElem?.2 hcell
  rw [← Expr.sources_of_evaluate hresult (hproduced.idsIdentify e),
    filter_edges_derived ht hc habove hplan hcols hid, List.length_map]
  exact ComputedRow.filter_edges_of_value hwidth hrow hcell

/-- A value that is computed in a staged table has the payload that its expression has in the frame of its
row, and the edges that it owns lead to what the expression denotes there. -/
theorem edges_of_value (hwf : setup.catalog.WellFormed) (hstore : (store.values.map Value.id).Nodup)
    (hbound : ∀ t ∈ sources, ∃ table, SourceTable.bind setup.catalog store table = .ok t)
    (ht : table ∈ setup.catalog.tables) (hc : table.creation = some creation)
    (horigin : p.origin = .derived) (htable : p.table = table.id)
    (habove : ∀ e ∈ setup.catalog.entities, e.id.number < p.id.number)
    (h : draft setup p table creation sources = .ok d) (hv : v ∈ d.extent.values)
    (hcol : col ∈ setup.catalog.columns) (hid : col.id = v.column) (he : col.expr? = some e)
    (hevaluated : ∀ name ∈ e.cubeColumns, setup.catalog.hasColumn name.toColumn) :
    ∃ n frames frame, v.row = Draft.rowId p.id.number d.extent.columns.length n ∧
      creation.approach.createRows setup.catalog setup.functions sources = .ok frames ∧
      frames[n]? = some frame ∧
      ∃ result, e.evaluate setup.catalog setup.functions frame.scope = .ok result ∧
        result.value = v.payload ∧
        d.edges.filter (fun edge => edge.owner.id = v.id) =
          (distinct (e.denoted frame.scope)).map fun x => ⟨v.entity, .valueSource, x⟩ := by
  obtain ⟨-, plan, hplan, frames, hframes, rows, hfills, rfl⟩ := (draft_eq_ok_iff horigin htable).1 h
  obtain ⟨n, k, row, frame, planned, cell, hrow, hframe, hcell, hmem, hholds, rfl⟩ :=
    exists_holds_of_mem_values hfills hv
  have hcols : ∀ col ∈ setup.catalog.columnsOf table.id, col ∈ setup.catalog.columns := fun _ hcol =>
    (Catalog.mem_columnsOf.1 hcol).1
  have hcolumn := hcols _ (Plan.exists_of_mem_columns hplan hmem).1
  have heq : planned.column = col := List.inj_on_of_nodup_map hwf.nodup_columnIds hcolumn hcol hid.symm
  obtain ⟨_, rfl⟩ := eq_compute hplan hmem (heq ▸ he) hevaluated
  obtain ⟨result, hresult, -, rfl⟩ := hholds
  have hlength : (plan.map fun column => column.column.id).length = plan.length := List.length_map _
  refine ⟨n, frames, frame, congrArg (Draft.rowId _ · n) hlength.symm, hframes, hframe, result, hresult,
    rfl, ?_⟩
  rw [Value.entity, Value.filled, horigin]
  exact filter_edges_of_value hstore hbound ht hc habove hplan hcols hframes hfills hframe hrow hresult hcell

end Derive

namespace Run

/-- The frame of a row of a derived table: among the frames that the approach of the table makes over its
source tables, as they are in the run, it has the number of the row. -/
def FrameOf (r : Run) (creation : Creation) (number : Nat) (frame : RowFrame) : Prop :=
  ∃ sources frames,
    creation.approach.sourceTables.mapM (bindSource r.setup.catalog r.state.store) = .ok sources ∧
    creation.approach.createRows r.setup.catalog r.setup.functions sources = .ok frames ∧
    frames[number]? = some frame

/-- A value was computed from an expression, in a row of the derived table with a creation. -/
structure Computes (r : Run) (v : Value) (row : Row) (creation : Creation) (e : Expr) : Prop where
  mem : v ∈ r.state.store.values
  inRow : row ∈ r.state.store.rows ∧ row.id = v.row
  ofTable : ∃ p ∈ r.state.store.populated, p.id = row.populated ∧
    ∃ t ∈ r.setup.catalog.tables, t.id = p.table ∧ t.creation = some creation
  inColumn : ∃ col ∈ r.setup.catalog.columns, col.id = v.column ∧ col.expr? = some e
  /-- The schema has all speculative columns of the expression, so that no default stands in for it. -/
  evaluated : ∀ name ∈ e.cubeColumns, r.setup.catalog.hasColumn name.toColumn

variable {r : Run} {v : Value} {row : Row} {creation : Creation} {e : Expr}

/-- A computed value was committed with its row and its table. -/
theorem Computes.exists_commit {cs : List Commit} (hwf : r.setup.catalog.WellFormed)
    (h : r.state.MadeOf r.setup cs) (hv : r.Computes v row creation e) :
    ∃ c ∈ cs, c.table.creation = some creation ∧ v ∈ c.draft.extent.values ∧
      row ∈ c.draft.extent.rows := by
  have hs := h.sound hwf
  obtain ⟨hv, ⟨hrow, hrowid⟩, ⟨p, hp, hpid, t, ht, htid, hcreation⟩, -, -⟩ := hv
  obtain ⟨x, hx, hv⟩ := List.mem_flatMap.1 hv
  obtain ⟨row', hrow', heq⟩ := hs.row_of_mem_values hx hv
  have hrow' : row = row' := List.inj_on_of_nodup_map hs.nodup_rowIds hrow
    (List.mem_flatMap.2 ⟨x, hx, hrow'⟩) (hrowid.trans heq)
  subst hrow'
  obtain ⟨y, hy, rfl⟩ := List.mem_map.1 hp
  have hpopulated : row.populated = x.populated.id := by
    obtain ⟨rows, hfilled⟩ := hs.filled x hx
    rw [hfilled] at hrow'
    obtain ⟨n, -, rfl⟩ := Extent.mem_rows_filled hrow'
    rfl
  have hyx : y = x := List.inj_on_of_nodup_map hs.nodup_populatedIds hy hx (hpid.trans hpopulated)
  subst hyx
  obtain ⟨c, hc, rfl⟩ := h.exists_of_mem_extents hy
  rw [(h.history.populates hc).table] at htid
  have htable := hwf.table_eq ht (h.history.known hc) htid
  exact ⟨c, hc, htable ▸ hcreation, hv, hrow'⟩

/-- Every row of a derived table in which a value was computed has a frame. The value has the payload that
its expression has in that frame, and the edges that it owns lead, each once and in the order of reading, to
exactly the values that the leaves of the expression denote in it, whatever the payloads are. -/
theorem Reachable.lineage_exact (h : r.Reachable) (hv : r.Computes v row creation e) :
    (∃ frame, r.FrameOf creation row.number frame) ∧
      ∀ frame, r.FrameOf creation row.number frame →
        (∃ result, e.evaluate r.setup.catalog r.setup.functions frame.scope = .ok result ∧
          result.value = v.payload) ∧
        r.state.log.ownedBy v.id =
          (distinct (e.denoted frame.scope)).map (fun x => ⟨v.entity, .valueSource, x⟩) ∧
        (r.state.log.ownedBy v.id).Nodup ∧
        ∀ s, frame.scope.Agree (fun _ => False) s → e.denoted s = e.denoted frame.scope := by
  obtain ⟨hwf, cs, hmade⟩ := h.exists_madeOf
  obtain ⟨c, hc, hcreation, hmem, hrow⟩ := hv.exists_commit hwf hmade
  obtain ⟨before, after, rfl, follows⟩ := hmade.history.exists_follows hc
  obtain ⟨-, ⟨-, hrowid⟩, -, ⟨col, hcol, hcolid, he⟩, hevaluated⟩ := hv
  have hbefore : (Commit.storeOf before).Sound := hmade.history.of_append.sound hwf
  have hgrounded := follows.grounded hwf
  have hstaged := follows.staged
  unfold stage at hstaged
  rw [hcreation] at hstaged
  obtain ⟨sources, hsources, hdraft⟩ := Except.bind_eq_ok_iff.1 hstaged
  obtain ⟨n, frames, frame, hvrow, hframes, hframe, result, hresult, hpayload, hedges⟩ :=
    Derive.edges_of_value hwf hbefore.nodup_valueIds (exists_bind_of_bindSources hsources) follows.known
      hcreation (follows.populates.derived hcreation) follows.populates.table follows.above hdraft hmem hcol
      hcolid he hevaluated
  -- The sources are bound now as they were when the table was staged.
  have hnow : creation.approach.sourceTables.mapM (bindSource r.setup.catalog r.state.store) =
      .ok sources := by
    rw [hmade.store, hmade.history.bindSources_eq hwf hcreation, hsources]
  have hnumber : row.number = n := by
    obtain ⟨rows, hfilled⟩ := hgrounded.filled
    rw [hfilled] at hrow
    obtain ⟨m, -, rfl⟩ := Extent.mem_rows_filled hrow
    exact Draft.rowId_inj (hrowid.trans hvrow)
  have howned : r.state.log.ownedBy v.id =
      (distinct (e.denoted frame.scope)).map fun x => ⟨v.entity, .valueSource, x⟩ := by
    have hentity : v.entity ∈ c.draft.extent.entities :=
      List.mem_append_right _ (List.mem_map_of_mem hmem)
    exact (hmade.ownedBy_eq hwf hc hentity).trans hedges
  refine ⟨⟨frame, sources, frames, hnow, hframes, hnumber ▸ hframe⟩, ?_⟩
  rintro frame' ⟨sources', frames', hnow', hframes', hframe'⟩
  cases hnow.symm.trans hnow'
  cases hframes.symm.trans hframes'
  rw [hnumber] at hframe'
  cases hframe.symm.trans hframe'
  refine ⟨⟨result, hresult, hpayload⟩, howned, howned ▸ ?_, fun s hs => ?_⟩
  · exact (nodup_distinct _).map fun _ _ heq => congrArg Edge.target heq
  · exact (Expr.denoted_eq_of_alike hs fun _ _ hxy => hxy.1).symm

end Run

namespace Sample

/-- The total of a region was made from the amounts of all of its sales. -/
theorem lineage_total :
    let r := run.after (.materialize "total")
    let v : Value := ⟨⟨21⟩, ⟨19⟩, ⟨9⟩, .int (.ofCount 8), .derived⟩
    v ∈ r.state.store.values ∧ (∃ frame, r.FrameOf total 0 frame) ∧
      ∀ frame, r.FrameOf total 0 frame → r.state.log.ownedBy v.id =
        (distinct (sumOfSales.denoted frame.scope)).map fun x => ⟨v.entity, .valueSource, x⟩ := by
  intro r v
  have hv : v ∈ r.state.store.values := List.mem_of_getElem? (i := 5) rfl
  have hrow : ⟨⟨19⟩, ⟨18⟩, 0, .derived⟩ ∈ r.state.store.rows := List.mem_of_getElem? (i := 2) rfl
  have htable : ⟨⟨2⟩, "total", some total⟩ ∈ r.setup.catalog.tables := List.mem_of_getElem? (i := 1) rfl
  have hcolumn : ⟨⟨9⟩, "amount", ⟨2⟩, .function ⟨"amount", ""⟩ sumOfSales [⟨.databaseField, ⟨7⟩⟩]⟩ ∈
      r.setup.catalog.columns := List.mem_of_getElem? (i := 3) rfl
  have hpopulated : ∃ p ∈ r.state.store.populated, p.id = ⟨18⟩ ∧ p.table = ⟨2⟩ :=
    ⟨_, List.mem_of_getElem? (i := 1) rfl, rfl, rfl⟩
  have hcomputes : r.Computes v ⟨⟨19⟩, ⟨18⟩, 0, .derived⟩ total sumOfSales := by
    obtain ⟨p, hp, hid, hof⟩ := hpopulated
    exact ⟨hv, ⟨hrow, rfl⟩, ⟨p, hp, hid, _, htable, hof.symm, rfl⟩, ⟨_, hcolumn, rfl, rfl⟩,
      fun _ h => absurd h List.not_mem_nil⟩
  obtain ⟨hframe, hlineage⟩ := Run.Reachable.lineage_exact (.call reachable_run _) hcomputes
  exact ⟨hv, hframe, fun frame h => (hlineage frame h).2.1⟩

end Sample

end Provenance
