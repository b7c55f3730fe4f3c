import Provenance.Proofs.Catalog.Named
import Provenance.Proofs.Reachable

/-!
# Lineage of values and of definitions

An edge from a value to a value leads from a column to one that the expression of the column names. Where the
lineage of definitions is recorded, it has an edge between the two columns if the expression names the second
one as an ordinary column. It has none if the expression names it as a speculative column only: what is read
for such a leaf is told of the values and not of the columns. Main statement: `Run.Reachable.covered_iff`.
-/

namespace Provenance

namespace Commit.ComputedFrom

variable {setup : Setup} {cs : List Commit} {c : Commit} {creation : Creation} {sources : List SourceTable}
  {plan : List ColumnPlan} {frames : List RowFrame} {rows : List ComputedRow} {col : Column} {e : Expr}

theorem column_mem (h : c.ComputedFrom setup cs creation sources plan frames rows) {planned : ColumnPlan}
    (hplanned : planned ∈ plan) : planned.column ∈ setup.catalog.columnsOf c.table.id :=
  (Plan.exists_of_mem_columns h.planned hplanned).1

/-- Where definitions are recorded, the edges of a computed column lead to the columns that its expression
names. -/
theorem functionColumn_mem_iff (h : c.ComputedFrom setup cs creation sources plan frames rows)
    (hwf : setup.catalog.WellFormed) (hnamed : setup.catalog.Named)
    (hrecord : setup.settings.recordDefinitions = true) (hcol : .compute col e ∈ plan) {x : Entity} :
    ⟨col.entity, .functionColumn, x⟩ ∈ c.draft.edges ↔
      ∃ name ∈ e.columns, ∃ col', setup.catalog.column? name = some col' ∧ col'.entity = x := by
  have hcolumns : ∀ planned ∈ plan, planned.column ∈ setup.catalog.columns := fun _ hplanned =>
    (Catalog.mem_columnsOf.1 (h.column_mem hplanned)).1
  rw [← hnamed.references col (hcolumns _ hcol) e (Plan.expr?_of_compute h.planned hcol), h.draft,
    if_pos hrecord]
  -- Only the columns of a commit own edges of this kind, and each of them its own ones.
  constructor
  · intro hedge
    rcases List.mem_append.1 hedge with hedge | hedge
    · rcases Derive.cases_of_mem_definitionEdges hedge with
        ⟨-, ⟨hk, -⟩ | ⟨hk, -⟩⟩ | ⟨planned, hplanned, howner, -, hx⟩
      · cases hk
      · cases hk
      · rwa [hwf.column_eq (hcolumns _ hplanned) (hcolumns _ hcol) howner.symm] at hx
    · obtain ⟨row, -, hedge⟩ := List.mem_flatMap.1 hedge
      rcases ComputedRow.cases_of_mem_edges hedge with ⟨-, hk, -⟩ | ⟨_, -, -, hk, -⟩ <;> cases hk
  · intro hx
    refine List.mem_append_left _ (List.mem_append_right _ (List.mem_flatMap.2 ⟨_, hcol, ?_⟩))
    exact List.mem_map_of_mem hx

/-- An edge of a value leads from a column that is computed to what its expression denotes in the frame of the
row that the value stands in. -/
theorem exists_compute_in_frame (h : c.ComputedFrom setup cs creation sources plan frames rows)
    (horigin : c.draft.extent.populated.origin = .derived) {edge : Edge} (hedge : edge ∈ c.draft.edges)
    (hkind : edge.kind = .valueSource) :
    ∃ n frame, frames[n]? = some frame ∧ ∃ v ∈ c.draft.extent.values, v.entity = edge.owner ∧
      v.row = Draft.rowId c.draft.extent.populated.id.number plan.length n ∧
      ∃ col e, .compute col e ∈ plan ∧ col.id = v.column ∧ edge.target ∈ e.denoted frame.scope := by
  rw [h.draft] at hedge
  rcases List.mem_append.1 hedge with hedge | hedge
  · split at hedge
    · rcases Derive.cases_of_mem_definitionEdges hedge with ⟨-, ⟨hk, -⟩ | ⟨hk, -⟩⟩ | ⟨_, -, -, hk, -⟩ <;>
        cases hk.symm.trans hkind
    · cases hedge
  obtain ⟨⟨row, n⟩, hrow, hedge⟩ := List.mem_flatMap.1 hedge
  rcases ComputedRow.cases_of_mem_edges hedge with ⟨-, hk, -⟩ | ⟨⟨cell, k⟩, hcell, howner, -, htarget⟩
  · cases hk.symm.trans hkind
  have hrow := List.mem_zipIdx_iff_getElem?.1 hrow
  have hcell := List.mem_zipIdx_iff_getElem?.1 hcell
  obtain ⟨frame, hframe, -, hcells⟩ := h.fills.exists_of_getElem?_right hrow
  obtain ⟨planned, hplanned, hholds⟩ := hcells.exists_of_getElem?_right hcell
  cases planned with
  | fill col literal =>
    cases show cell = (literal, []) from hholds
    cases htarget
  | compute col e =>
    obtain ⟨result, hresult, -, rfl⟩ := hholds
    have hplace : (row.cells.map Prod.fst, n) ∈ (rows.map fun row => row.cells.map Prod.fst).zipIdx :=
      List.mem_zipIdx_iff_getElem?.2 (by rw [List.getElem?_map, hrow]; rfl)
    have hid : (plan.map fun column => column.column.id)[k]? = some col.id := by
      rw [List.getElem?_map, hplanned]
      rfl
    have hpayload : (row.cells.map Prod.fst)[k]? = some result.value := by
      rw [List.getElem?_map, hcell]
      rfl
    have hmem := Extent.value_mem_filled c.draft.extent.populated hplace hid hpayload
    rw [← h.extent_eq] at hmem
    refine ⟨n, frame, hframe, _, hmem, ?_, congrArg (Draft.rowId _ · n) (List.length_map _), col, e,
      List.mem_of_getElem? hplanned, rfl, Expr.mem_denoted_of_mem_sources hresult htarget⟩
    rw [howner, Value.entity, Value.filled, horigin]
    rfl

theorem exists_compute (h : c.ComputedFrom setup cs creation sources plan frames rows)
    (horigin : c.draft.extent.populated.origin = .derived) {edge : Edge} (hedge : edge ∈ c.draft.edges)
    (hkind : edge.kind = .valueSource) :
    ∃ v ∈ c.draft.extent.values, v.entity = edge.owner ∧ ∃ col e, .compute col e ∈ plan ∧ col.id = v.column ∧
      ∃ frame ∈ frames, edge.target ∈ e.denoted frame.scope := by
  obtain ⟨n, frame, hframe, v, hv, howner, -, col, e, hcol, hid, htarget⟩ :=
    h.exists_compute_in_frame horigin hedge hkind
  exact ⟨v, hv, howner, col, e, hcol, hid, frame, List.mem_of_getElem? hframe, htarget⟩

end Commit.ComputedFrom

namespace History

variable {setup : Setup} {cs : List Commit} {c : Commit} {creation : Creation} {sources : List SourceTable}
  {plan : List ColumnPlan} {frames : List RowFrame} {rows : List ComputedRow} {frame : RowFrame} {e : Expr}
  {x : Entity}

/-- What an expression denotes over the sources of a commit are values in the columns that the expression
names. -/
theorem exists_column_of_mem_denoted (hwf : setup.catalog.WellFormed) (hnamed : setup.catalog.Named)
    (h : History setup cs) (follows : c.Follows setup cs)
    (hcomputed : c.ComputedFrom setup cs creation sources plan frames rows) (hframe : frame ∈ frames)
    (hx : x ∈ e.denoted frame.scope) :
    ∃ c' ∈ cs, ∃ w ∈ c'.draft.extent.values, w.entity = x ∧
      ∃ col ∈ setup.catalog.columns, col.id = w.column ∧
        ∃ name ∈ e.leaves, setup.catalog.column? name = some col := by
  have hframed := Approach.framed_of_mem_createRows hcomputed.made hframe
  obtain ⟨b, hb, name, hname, hx⟩ := Expr.exists_of_mem_denoted hx
  obtain ⟨t, ht, htable, r, hr, cell, hcell, rfl⟩ := Binding.exists_of_mem_denoted (hframed.bound b hb) hx
  -- The table that the cell is found in is bound from an earlier commit, with the names of its columns.
  obtain ⟨source, hsource, hbind⟩ := (List.mapM_eq_ok_iff.1 hcomputed.bound).exists_of_mem_right ht
  obtain ⟨t', ht', rfl, c', hc', hid⟩ := follows.exists_named_source hwf hcomputed.derived hsource
  cases hwf.table_eq (h.known hc') ht' hid
  obtain ⟨names, rows', hfilled⟩ := h.exists_filledWith hwf hc'
  cases hbind.symm.trans (h.bindSource_eq hwf hc' hfilled)
  obtain ⟨w, hw, rfl, hcolumn⟩ := Extent.exists_value_of_mem_cells hfilled.columns hr hcell
  obtain ⟨_, hg⟩ := h.grounded hwf hc'
  obtain ⟨_, -, _, -, hmem, rfl⟩ := Extent.mem_values_filled hw
  obtain ⟨col, hcol, hcolid⟩ := hg.columns _ hmem
  have hcolumns := (Catalog.mem_columnsOf.1 hcol).1
  refine ⟨c', hc', _, hfilled.extent ▸ hw, rfl, col, hcolumns, hcolid, name, hname, ?_⟩
  have hcolname : col.name = name.column :=
    Except.ok.inj ((columnName_of_mem hwf hcolumns).symm.trans (hcolid ▸ hcolumn))
  have hfound := Catalog.column?_of_mem hwf (hnamed.single _ (h.known hc')) (h.known hc') hcol
  rw [hcolname] at hfound
  exact (congrArg (fun table => setup.catalog.column? ⟨table, name.column⟩) htable).symm.trans hfound

end History

namespace Run

variable {r : Run} {edge : Edge}

/-- A value stands in a column. -/
structure InColumn (r : Run) (v : Value) (col : Column) : Prop where
  value : v ∈ r.state.store.values
  column : col ∈ r.setup.catalog.columns
  id : col.id = v.column

/-- A value that was read for another one stands in a column that is named by the expression of the column of
that one. Where definitions are recorded, an edge leads from the column of the one to that of the other exactly
if the expression names it as an ordinary column, and not as a speculative one only. -/
theorem Reachable.covered_iff (h : r.Reachable) (hrecord : r.setup.settings.recordDefinitions = true)
    (hedge : edge ∈ r.state.log.edges) (hkind : edge.kind = .valueSource) :
    ∃ v w col col' e, v.entity = edge.owner ∧ w.entity = edge.target ∧ r.InColumn v col ∧
      r.InColumn w col' ∧ col.expr? = some e ∧
      (∃ name ∈ e.leaves, r.setup.catalog.column? name = some col') ∧
      (⟨col.entity, .functionColumn, col'.entity⟩ ∈ r.state.log.edges ↔
        ∃ name ∈ e.columns, r.setup.catalog.column? name = some col') := by
  obtain ⟨hwf, cs, hmade⟩ := h.exists_madeOf
  obtain ⟨_, _, compiled⟩ := h.exists_compile
  have hnamed := Schema.named_of_compile compiled
  rw [hmade.log] at hedge ⊢
  obtain ⟨c, hc, hmem⟩ := List.mem_flatMap.1 hedge
  obtain ⟨before, after, rfl, follows⟩ := hmade.history.exists_follows hc
  have hbefore := hmade.history.of_append
  rcases follows.cases_of_staged with ⟨rows, hsupplied⟩ | ⟨creation, sources, plan, frames, rows, hcomputed⟩
  · rw [hsupplied.draft] at hmem
    cases hmem
  obtain ⟨v, hv, howner, col, e, hcol, hid, frame, hframe, htarget⟩ :=
    hcomputed.exists_compute (follows.populates.derived hcomputed.derived) hmem hkind
  obtain ⟨c', hc', w, hw, htarget, col', hcol', hid', hleaf⟩ :=
    hbefore.exists_column_of_mem_denoted hwf hnamed follows hcomputed hframe htarget
  have hplanned := hcomputed.column_mem hcol
  have howns : c.draft.Owns r.setup.catalog c.table col.entity := .inl (.inr ⟨col, hplanned, rfl⟩)
  refine ⟨v, w, col, col', e, howner, htarget, ⟨hmade.mem_values hc hv, (Catalog.mem_columnsOf.1 hplanned).1,
    hid⟩, ⟨hmade.mem_values (List.mem_append_left _ hc') hw, hcol', hid'⟩,
    Plan.expr?_of_compute hcomputed.planned hcol, hleaf, ?_⟩
  have hrecorded := hcomputed.functionColumn_mem_iff hwf hnamed hrecord hcol (x := col'.entity)
  constructor
  · intro hedge
    obtain ⟨name, hname, col'', hfound, hentity⟩ :=
      hrecorded.1 (hmade.history.mem_edges_of_owns hwf hc howns hedge)
    have hcol'' := Catalog.mem_of_column? hfound
    rw [hwf.column_eq hcol'' hcol' hentity] at hfound
    exact ⟨name, hname, hfound⟩
  · rintro ⟨name, hname, hfound⟩
    exact List.mem_flatMap.2 ⟨c, hc, hrecorded.2 ⟨name, hname, col', hfound, rfl⟩⟩

end Run

namespace Sample

/-- The amount of a region was made from that of a sale, and so is its column from that of sales. -/
theorem covered_total :
    let r := run.after (.materialize "total")
    let edge : Edge := ⟨⟨.evaluatedValue, ⟨21⟩⟩, .valueSource, ⟨.databaseValue, ⟨14⟩⟩⟩
    edge ∈ r.state.log.edges ∧ ∃ v w col col' e, v.entity = edge.owner ∧ w.entity = edge.target ∧
      r.InColumn v col ∧ r.InColumn w col' ∧ col.expr? = some e ∧
      (⟨col.entity, .functionColumn, col'.entity⟩ ∈ r.state.log.edges ↔
        ∃ name ∈ e.columns, r.setup.catalog.column? name = some col') := by
  intro r edge
  have hedge : edge ∈ r.state.log.edges := by decide
  obtain ⟨v, w, col, col', e, howner, htarget, hv, hw, he, -, hiff⟩ :=
    Run.Reachable.covered_iff (.call reachable_run _) rfl hedge rfl
  exact ⟨hedge, v, w, col, col', e, howner, htarget, hv, hw, he, hiff⟩

/-- Sales and a copy of their amounts, which names these as a column of a cube. -/
def copied : Schema where
  name := "shop"
  tables := [⟨"sale", [⟨"region", .text⟩, ⟨"amount", .integer⟩]⟩]
  hierarchies := []
  derived := [⟨"copy", none, .enrichment "sale", [⟨"amount", none, "", .speculative ⟨"sale", "amount"⟩⟩]⟩]

def copiedCatalog : Catalog where
  id := ⟨0⟩
  name := "shop"
  fingerprint := copied.fingerprint
  tables := [.database ⟨1⟩ "sale",
    ⟨⟨2⟩, "copy", some ⟨⟨3⟩, .enrichment "sale", [⟨.databaseTable, ⟨1⟩⟩], []⟩⟩]
  columns := copied.compileColumns 0
  hierarchies := []

/-- A copy of the amount of one sale. -/
def copiedRun : Run :=
  (Engine.start ⟨copiedCatalog, ⟨none, .abort, true, true⟩, .empty⟩ 10 .epoch "run" []
    ⟨[("sale", [[("region", .text "north"), ("amount", .int 3)]])]⟩).after (.materialize "copy")

/-- What is read for a column of a cube is recorded of the values, but not of the columns. -/
theorem not_covered_copied :
    copiedRun.Reachable ∧ copiedRun.setup.settings.recordDefinitions = true ∧
      ∃ v w col col', copiedRun.InColumn v col ∧ copiedRun.InColumn w col' ∧
        ⟨v.entity, .valueSource, w.entity⟩ ∈ copiedRun.state.log.edges ∧
        ⟨col.entity, .functionColumn, col'.entity⟩ ∉ copiedRun.state.log.edges := by
  have hcompiled : copied.compile 0 = .ok copiedCatalog := rfl
  refine ⟨.call (.start hcompiled (by decide)) _, rfl, ?_⟩
  have hcopy : copiedRun.InColumn ⟨⟨17⟩, ⟨16⟩, ⟨6⟩, .int (.ofCount 3), .derived⟩
      (copied.compileFunction 0 ⟨"copy", none, .enrichment "sale", []⟩
        ⟨"amount", none, "", .speculative ⟨"sale", "amount"⟩⟩) :=
    ⟨List.mem_of_getElem? (i := 2) rfl, List.mem_of_getElem? (i := 2) rfl, rfl⟩
  have hsale : copiedRun.InColumn ⟨⟨14⟩, ⟨12⟩, ⟨5⟩, .int (.ofCount 3), .database⟩
      (copied.compileField 0 ⟨"sale", []⟩ ⟨"amount", .integer⟩) :=
    ⟨List.mem_of_getElem? (i := 1) rfl, List.mem_of_getElem? (i := 1) rfl, rfl⟩
  exact ⟨_, _, _, _, hcopy, hsale, by decide, by decide⟩

end Sample

end Provenance
