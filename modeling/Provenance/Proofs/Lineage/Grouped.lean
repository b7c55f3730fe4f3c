import Provenance.Proofs.Catalog.Named
import Provenance.Proofs.Lineage.Totals
import Provenance.Proofs.Rows.Amounts

/-!
# Tables of totals

A derived table may group the rows of another one, copy columns that it groups by and sum up a column
(`Totals.SumsUp`). Once it is committed it has a row for every group, with the first parts of the key of the
group and the total of its cells (`Totals.SumsUp.exists_holds`).
-/

namespace Provenance

/-- A derived table with copies of some columns and a total. -/
structure Totals where
  definition : DerivedDefinition
  copies : List String
  total : String

namespace Totals

/-- A table is grouped by some columns and then by others. The former are copied, and a column is summed
up. -/
structure SumsUp (x : Totals) (source : String) (keys rest : List String) (amount : String) : Prop where
  creation : x.definition.creation = .group source ((keys ++ rest).map (ColumnName.mk source))
  copies : List.Forall₂
    (fun key copy => ∃ f ∈ x.definition.columns, f.name = copy ∧ f.expr = .column ⟨source, key⟩) keys x.copies
  total : ∃ f ∈ x.definition.columns, f.name = x.total ∧
    f.expr = .aggregate .sum (.column ⟨source, amount⟩)

/-- A row has the first parts of the key of a group, and the total of its cells. -/
structure Row (x : Totals) (log : EdgeLog) (group : KeyEntry Cell) (r : SourceRow) : Prop where
  copies : List.Forall₂ (fun copy v => ∃ cell, r.cell? copy = some cell ∧ cell.payload = v) x.copies
    (group.key.take x.copies.length)
  total : ∃ cell, r.cell? x.total = some cell ∧ log.TotalOf group.items cell

/-- A table of totals was filled under some of the names of its columns, with a row for every group. -/
structure Holds (x : Totals) (setup : Setup) (log : EdgeLog) (c : Commit) (groups : List (KeyEntry Cell))
    (names : List String) (rows : List (List Scalar)) : Prop where
  filled : c.FilledWith setup names rows
  sublist : names.Sublist (x.definition.columns.map FunctionDefinition.name)
  nodup : (x.definition.columns.map FunctionDefinition.name).Nodup
  grouped : List.Forall₂ (x.Row log) groups
    (SourceTable.filled c.draft.extent.populated c.table.name names rows).rows

end Totals

namespace State.MadeOf

variable {setup : Setup} {s : State} {cs before after : List Commit} {c : Commit} {creation : Creation}
  {sources : List SourceTable} {plan : List ColumnPlan} {frames : List RowFrame} {frame : RowFrame}
  {rows : List ComputedRow} {row : ComputedRow} {col : Column} {e : Expr} {n : Nat}
  (hwf : setup.catalog.WellFormed)
include hwf

/-- A computed column has in every row a cell with the value of its expression, which was made from what the
expression denotes. -/
theorem exists_cell_of_compute (h : s.MadeOf setup (before ++ c :: after))
    (hcomputed : c.ComputedFrom setup before creation sources plan frames rows)
    (hnames : ((plan.map ColumnPlan.column).map Column.name).Nodup) (hframe : frames[n]? = some frame)
    (hrow : rows[n]? = some row) (hcol : .compute col e ∈ plan) :
    ∃ result cell, e.evaluate setup.catalog setup.functions frame.scope = .ok result ∧
      (SourceRow.filled c.draft.extent.populated ((plan.map ColumnPlan.column).map Column.name)
        (row.cells.map Prod.fst, n)).cell? col.name = some cell ∧ cell.payload = result.value ∧
      s.log.ownedBy cell.value.id =
        (distinct (e.denoted frame.scope)).map fun x => ⟨cell.value, .valueSource, x⟩ := by
  have follows := h.history.follows_of_append
  obtain ⟨k, hk⟩ := List.getElem?_of_mem hcol
  obtain ⟨frame', hframe', -, hcells⟩ := hcomputed.fills.exists_of_getElem?_right hrow
  cases hframe.symm.trans hframe'
  obtain ⟨_, hcell, result, hresult, -, rfl⟩ := hcells.exists_of_getElem?_left hk
  let place : List Scalar × Nat := (row.cells.map Prod.fst, n)
  have hplace : place ∈ (rows.map fun row => row.cells.map Prod.fst).zipIdx := by
    simp [place, List.mem_zipIdx_iff_getElem?, hrow]
  have hname : ((plan.map ColumnPlan.column).map Column.name)[k]? = some col.name := by
    simp [hk, ColumnPlan.column]
  have hid : (plan.map fun column => column.column.id)[k]? = some col.id := by
    simp [hk, ColumnPlan.column]
  have hpayload : place.1[k]? = some result.value := by simp [place, hcell]
  have hlength : place.1.length = ((plan.map ColumnPlan.column).map Column.name).length := by
    simp [place, hcells.length_eq]
  refine ⟨result, _, hresult, SourceRow.cell?_filled hnames hlength hname hpayload, rfl, ?_⟩
  let v := Value.filled c.draft.extent.populated plan.length n ((col.id, result.value), k)
  have hvalue : v ∈ c.draft.extent.values := by
    rw [hcomputed.extent_eq]
    simpa [v, place] using Extent.value_mem_filled c.draft.extent.populated hplace hid hpayload
  have hentity : v.entity ∈ c.draft.extent.entities := List.mem_append_right _ (List.mem_map_of_mem hvalue)
  have hcell' : (Cell.filled c.draft.extent.populated
      ((plan.map ColumnPlan.column).map Column.name).length place.2 k result.value).value = v.entity := by
    simp [Cell.filled, Value.entity, v, place, Value.filled]
  have horigin := follows.populates.derived hcomputed.derived
  have hkind : v.entity = ⟨.evaluatedValue, v.id⟩ := by
    rw [Value.entity, show v.origin = .derived from horigin]
    rfl
  -- The log has under the cell what its own commit recorded, and nothing else.
  rw [hcell', h.ownedBy_eq hwf (List.mem_append_right _ List.mem_cons_self) hentity, hcomputed.draft]
  have hbefore : (Commit.storeOf before).Sound := h.history.of_append.sound hwf
  rw [hkind]
  exact Derive.filter_edges_of_value hbefore.nodup_valueIds (exists_bind_of_bindSources hcomputed.bound)
    follows.known hcomputed.derived follows.above hcomputed.planned
    (fun _ hcol => (Catalog.mem_columnsOf.1 hcol).1) hcomputed.made hcomputed.fills hframe hrow hresult hcell

/-- A supplied column has in every row a cell with a payload of its data type, which was made from nothing. -/
theorem exists_cell_of_supplied (h : s.MadeOf setup cs) (hc : c ∈ cs) {payloads : List (List Scalar)}
    (hsupplied : c.SuppliedBy setup payloads)
    (hnames : ((setup.catalog.columnsOf c.table.id).map Column.name).Nodup) {type : DataType}
    (hcol : col ∈ setup.catalog.columnsOf c.table.id) (hkind : col.kind = .field type) {r : SourceRow}
    (hr : r ∈ (SourceTable.filled c.draft.extent.populated c.table.name
      ((setup.catalog.columnsOf c.table.id).map Column.name) payloads).rows) :
    ∃ cell, r.cell? col.name = some cell ∧ cell.payload.conforms type ∧
      s.log.ownedBy cell.value.id = [] := by
  have hfilled := hsupplied.filledWith hwf
  obtain ⟨place, hplace, rfl⟩ := List.mem_map.1 hr
  have hmem := List.fst_mem_of_mem_zipIdx hplace
  obtain ⟨_, -, -, hholds⟩ := hsupplied.fills.exists_of_mem_right hmem
  obtain ⟨k, hk⟩ := List.getElem?_of_mem hcol
  obtain ⟨v, hv, type', hkind', -, hconforms⟩ := hholds.exists_of_getElem?_left hk
  cases hkind.symm.trans hkind'
  have hname : ((setup.catalog.columnsOf c.table.id).map Column.name)[k]? = some col.name := by simp [hk]
  have hcell := SourceRow.cell?_filled (p := c.draft.extent.populated) hnames (hfilled.width _ hmem) hname hv
  refine ⟨_, hcell, hconforms, ?_⟩
  obtain ⟨w, hw, hvalue, -⟩ :=
    Extent.exists_value_of_mem_cells hfilled.columns hr (SourceRow.mem_of_cell? hcell)
  rw [← hfilled.extent] at hw
  have hentity : w.entity ∈ c.draft.extent.entities := List.mem_append_right _ (List.mem_map_of_mem hw)
  rw [hvalue, h.ownedBy_eq hwf hc hentity, hsupplied.draft]
  rfl

end State.MadeOf

theorem sourceTable_singleton {c : Catalog} {store : Store} {source : String} {t : SourceTable}
    (h : bindSource c store source = .ok t) : sourceTable [t] source = .ok t := by
  obtain ⟨table, htable, hbind⟩ := Except.bind_eq_ok_iff.1 h
  have hname := (SourceTable.name_of_bind hbind).trans (Catalog.mem_of_table htable).2
  simp [sourceTable, hname]

namespace Totals.SumsUp

/-- A row in which the columns of a table of totals have their values over a group. -/
theorem row_of_collects {x : Totals} {source amount : String} {keys rest : List String} (c : Catalog)
    (functions : Functions) {log : EdgeLog} {scope : Scope} {group : KeyEntry Cell} {r : SourceRow}
    (hsums : x.SumsUp source keys rest amount)
    (h : scope.Collects ((keys ++ rest).map (ColumnName.mk source)) ⟨source, amount⟩ group)
    (hcells : ∀ f ∈ x.definition.columns, f.expr.cubeColumns = [] →
      ∃ result cell, f.expr.evaluate c functions scope = .ok result ∧ r.cell? f.name = some cell ∧
        cell.payload = result.value ∧ log.ownedBy cell.value.id =
          (distinct (f.expr.denoted scope)).map fun y => ⟨cell.value, .valueSource, y⟩) :
    x.Row log group r := by
  constructor
  -- The copies are read from the first member of the group, and so is its key.
  · obtain ⟨first, hkey, hfirst⟩ := h.exists_first c functions
    rw [List.mapM_eq_ok_iff, List.forall₂_map_left_iff] at hkey
    have hparts := (List.forall₂_take_append _ _ _ hkey.flip).flip
    rw [hsums.copies.length_eq] at hparts
    refine (List.forall₂_comp_iff.2 ⟨_, hsums.copies.flip, hparts⟩).imp ?_
    rintro copy v ⟨key, ⟨f, hf, rfl, hexpr⟩, hv⟩
    obtain ⟨result, cell, hresult, hcell, hpayload, -⟩ := hcells f hf (by rw [hexpr]; rfl)
    rw [hexpr] at hresult
    obtain ⟨⟨w, readings⟩, hw, heq⟩ := Except.bind_eq_ok_iff.1 hresult
    cases heq
    cases (hfirst _ _ _ hw).symm.trans hv
    exact ⟨cell, hcell, hpayload⟩
  · obtain ⟨f, hf, hname, hexpr⟩ := hsums.total
    obtain ⟨result, cell, hresult, hcell, hpayload, hedges⟩ := hcells f hf (by rw [hexpr]; rfl)
    rw [hexpr] at hresult hedges
    rw [h.denoted_sum] at hedges
    obtain ⟨⟨v, readings⟩, hv, heq⟩ := Except.bind_eq_ok_iff.1 hresult
    cases heq
    exact ⟨cell, hname ▸ hcell, h.items_ne_nil, hpayload ▸ h.apply_sum hv, hedges⟩

variable {schema : Schema} {first : Nat} {setup : Setup} {s : State} {cs : List Commit} {c : Commit}
  {x : Totals} {source amount : String} {keys rest : List String} {t : SourceTable}
  (compiled : schema.compile first = .ok setup.catalog) (hx : x.definition ∈ schema.derived)
  (hsums : x.SumsUp source keys rest amount) (hc : c ∈ cs) (hname : c.table.name = x.definition.name)
include compiled hx hsums hc hname

/-- A table of totals that is committed was computed by grouping its source table. -/
theorem exists_computed (h : History setup cs) :
    (∃ c' ∈ cs, c'.table.name = source) ∧
      ∃ before after creation t plan frames rows, cs = before ++ c :: after ∧
        c.ComputedFrom setup before creation [t] plan frames rows ∧
        creation.approach = .group source ((keys ++ rest).map (ColumnName.mk source)) ∧
        bindSource setup.catalog (Commit.storeOf cs) source = .ok t := by
  have hwf := Schema.wellFormed_of_compile compiled
  obtain ⟨before, after, rfl, follows⟩ := h.exists_follows hc
  obtain ⟨creation, hcreation, happroach⟩ :=
    (Schema.compiled_of_compile compiled).creation_of_mem hx follows.known hname
  rw [hsums.creation] at happroach
  have hsource : source ∈ creation.approach.sourceTables := by simp [happroach, Approach.sourceTables]
  obtain ⟨t', ht', rfl, c', hc', hid⟩ := follows.exists_named_source hwf hcreation hsource
  have htable := hwf.table_eq (h.of_append.known hc') ht' hid
  refine ⟨⟨c', List.mem_append_left _ hc', congrArg Table.name htable⟩, ?_⟩
  rcases follows.cases_of_staged with ⟨rows, hsupplied⟩ | ⟨creation', sources, plan, frames, rows, hcomputed⟩
  · cases hcreation.symm.trans hsupplied.supplied
  cases hcreation.symm.trans hcomputed.derived
  have hbound := hcomputed.bound
  rw [← h.bindSources_eq hwf hcreation, happroach] at hbound
  obtain ⟨t, hbind, hrest⟩ := Except.bind_eq_ok_iff.1 hbound
  cases hrest
  exact ⟨before, after, creation, t, plan, frames, rows, rfl, hcomputed, happroach, hbind⟩

variable (hbind : bindSource setup.catalog (Commit.storeOf cs) source = .ok t)
include hbind

/-- The rows of the source table of a committed table of totals have keys. -/
theorem exists_amounts (h : History setup cs)
    (hamount : ∀ r ∈ t.rows, ∃ cell, (Binding.single t r).lookup ⟨source, amount⟩ = .ok (some cell)) :
    ∃ items, t.Amounts ((keys ++ rest).map (ColumnName.mk source)) ⟨source, amount⟩ items := by
  obtain ⟨-, _, _, creation, t', plan, frames, rows, rfl, hcomputed, happroach, hbind'⟩ :=
    hsums.exists_computed compiled hx hc hname h
  cases hbind.symm.trans hbind'
  have hmade := hcomputed.made
  rw [happroach] at hmade
  exact Approach.exists_amounts_of_createRows hmade (sourceTable_singleton hbind) hamount

/-- A committed table of totals has a row for every group of the rows of its source table. -/
theorem exists_holds (h : s.MadeOf setup cs) {items : List (Key × Cell)}
    (hitems : t.Amounts ((keys ++ rest).map (ColumnName.mk source)) ⟨source, amount⟩ items) :
    ∃ names rows, x.Holds setup s.log c (KeyIndex.ofList items) names rows := by
  have hwf := Schema.wellFormed_of_compile compiled
  have hcompiled := Schema.compiled_of_compile compiled
  have hknown := h.history.known hc
  obtain ⟨-, before, after, creation, t', plan, frames, rows, rfl, hcomputed, happroach, hbind'⟩ :=
    hsums.exists_computed compiled hx hc hname h.history
  cases hbind.symm.trans hbind'
  have hcolumns := hcompiled.columnsOf_eq hx hknown hname
  have hshown : (setup.catalog.columnsOf c.table.id).map Column.name =
      x.definition.columns.map FunctionDefinition.name := by
    rw [hcolumns, List.map_map]
    rfl
  have hsingle := hcompiled.single hwf hknown
  have hsublist := (Plan.sublist_of_columns hcomputed.planned).map Column.name
  have hnames := hsingle.sublist hsublist
  rw [hshown] at hsingle hsublist
  refine ⟨_, _, hcomputed.filledWith hwf, hsublist, hsingle, ?_⟩
  have hmade := hcomputed.made
  rw [happroach] at hmade
  have hgroups := Approach.collects_of_createRows hmade (sourceTable_singleton hbind) hitems
  have hlength : (KeyIndex.ofList items).length = (SourceTable.filled c.draft.extent.populated c.table.name
      ((plan.map ColumnPlan.column).map Column.name) (rows.map fun row => row.cells.map Prod.fst)).rows.length := by
    simp [SourceTable.filled, ← hcomputed.fills.length_eq, hgroups.length_eq]
  -- A group, the frame that is made for it, what is computed in the frame and the row that is filled with this
  -- all stand at the same place.
  refine List.forall₂_of_getElem? hlength fun n group r hgroup hr => ?_
  obtain ⟨frame, hframe, hcollects⟩ := hgroups.exists_of_getElem?_right hgroup
  obtain ⟨row, hrow, -⟩ := hcomputed.fills.exists_of_getElem?_left hframe
  have hplace : r = .filled c.draft.extent.populated ((plan.map ColumnPlan.column).map Column.name)
      (row.cells.map Prod.fst, n) := by
    simpa [SourceTable.filled, hrow] using hr.symm
  rw [hplace]
  refine hsums.row_of_collects setup.catalog setup.functions hcollects fun f hf hcubes => ?_
  have hcol : schema.compileFunction first x.definition f ∈ setup.catalog.columnsOf c.table.id := by
    rw [hcolumns]
    exact List.mem_map_of_mem hf
  exact h.exists_cell_of_compute hwf hcomputed hnames hframe hrow
    (Plan.compute_mem hcomputed.planned hcol rfl hcubes)

end Totals.SumsUp

namespace Totals

variable {x : Totals} {setup : Setup} {log : EdgeLog} {c : Commit} {groups : List (KeyEntry Cell)}
  {names : List String} {rows : List (List Scalar)}

/-- The rows of a table of totals have the copies for keys and the totals for amounts. -/
theorem Holds.exists_amounts (h : x.Holds setup log c groups names rows) :
    ∃ items, (SourceTable.filled c.draft.extent.populated c.table.name names rows).Amounts
        (x.copies.map (ColumnName.mk c.table.name)) ⟨c.table.name, x.total⟩ items ∧
      List.Forall₂ (fun group i => group.key.take x.copies.length = i.1 ∧ log.TotalOf group.items i.2) groups
        items := by
  let t := SourceTable.filled c.draft.extent.populated c.table.name names rows
  have hitems : List.Forall₂
      (fun r group => ∃ i : Key × Cell,
        ((x.copies.map (ColumnName.mk c.table.name)).mapM (Binding.single t r).payload = .ok i.1 ∧
          (Binding.single t r).lookup ⟨c.table.name, x.total⟩ = .ok (some i.2)) ∧
        group.key.take x.copies.length = i.1 ∧ log.TotalOf group.items i.2)
      t.rows groups := by
    refine h.grouped.flip.mem_left.imp ?_
    rintro r group ⟨hr, hrow⟩
    obtain ⟨cell, hcell, htotal⟩ := hrow.total
    refine ⟨(group.key.take x.copies.length, cell), ⟨?_, Binding.lookup_filled hr hcell⟩, rfl, htotal⟩
    refine List.mapM_eq_ok_iff.2 (List.forall₂_map_left_iff.2 (hrow.copies.imp ?_))
    rintro copy _ ⟨cell, hcell, rfl⟩
    exact Binding.payload_of_lookup (Binding.lookup_filled hr hcell)
  obtain ⟨items, hamounts, hgroups⟩ := List.forall₂_comp_iff.1 hitems
  exact ⟨items, hamounts, hgroups.flip⟩

/-- A row of a table with no other columns has the parts of the key of its group, and after them the total. -/
theorem Holds.payloads_of_row (h : x.Holds setup log c groups names rows)
    (hcolumns : x.definition.columns.map FunctionDefinition.name = x.copies ++ [x.total]) {r : SourceRow}
    (hr : r ∈ (SourceTable.filled c.draft.extent.populated c.table.name names rows).rows)
    {group : KeyEntry Cell} (hrow : x.Row log group r) :
    ∃ cell, r.cell? x.total = some cell ∧ log.TotalOf group.items cell ∧
      r.cells.map (fun cell => cell.2.payload) = group.key.take x.copies.length ++ [cell.payload] := by
  obtain ⟨total, hcell, htotal⟩ := hrow.total
  have hall : List.Forall₂ (fun name v => ∃ cell, r.cell? name = some cell ∧ cell.payload = v)
      (x.copies ++ [x.total]) (group.key.take x.copies.length ++ [total.payload]) :=
    List.rel_append hrow.copies (.cons ⟨total, hcell, rfl⟩ .nil)
  have hnodup := h.nodup
  have hnames := h.sublist
  have hcells := h.filled.names_of_mem hr
  rw [hcolumns] at hnodup hnames
  -- All columns are there, since each of them has a cell in the row.
  have hsubset : x.copies ++ [x.total] ⊆ names := by
    intro name hname
    obtain ⟨_, -, cell, hcell, -⟩ := hall.exists_of_mem_left hname
    exact hcells ▸ List.mem_map_of_mem (SourceRow.mem_of_cell? hcell)
  have heq := hnames.eq_of_length_le (hnodup.subperm hsubset).length_le
  rw [← heq, ← hcells] at hall hnodup
  refine ⟨total, hcell, htotal, ?_⟩
  rw [← List.map_id (_ ++ [total.payload])]
  refine (List.forall₂_map_left_iff.1 hall).mem_left.map_eq ?_
  rintro ⟨name, cell⟩ v ⟨hmem, cell', hcell', hpayload⟩
  cases (SourceRow.cell?_of_mem hnodup hmem).symm.trans hcell'
  exact hpayload

end Totals

end Provenance
