import Provenance.Proofs.Correspondence
import Provenance.Proofs.Lineage.Grouped
import Provenance.Proofs.Rows.Grouping
import Provenance.Proofs.Scalar.Equality

/-!
# Rolling up

A supplied table may be grouped by some columns and others and its amounts summed up, and the totals be
grouped once more by the former columns and summed up (`Schema.RollUp`). What comes out has the same rows in
the same order, with the same payloads, as grouping by the former columns at once: the groups of groups are
the groups under the coarser keys (`KeyIndex.rollsUp_ofList`), and the total of totals is the total of all.
The leaves of its lineage are what the total at once was made from. Main statement:
`Run.Reachable.rollUp_agrees`.
-/

namespace Provenance

/-- The cells of a group are totals of parts, and the parts make up another group with the same key. -/
structure KeyEntry.RollsUp (log : EdgeLog) (coarse direct : KeyEntry Cell) : Prop where
  key : coarse.key = direct.key
  parts : ∃ parts, List.Forall₂ log.TotalOf parts coarse.items ∧ parts.flatten.Perm direct.items

theorem KeyIndex.rollsUp_ofList {log : EdgeLog} {n : Nat} {items totals : List (Key × Cell)}
    (h : List.Forall₂ (fun group i => group.key.take n = i.1 ∧ log.TotalOf group.items i.2) (ofList items)
      totals) :
    List.Forall₂ (KeyEntry.RollsUp log) (ofList totals) (ofList (items.map fun i => (i.1.take n, i.2))) := by
  -- The fine groups, put together by the coarser keys, stand between their totals and the things themselves.
  have hgroups := ofList_ofList (fun _ _ h => Key.same_take n h) items
  have htotals : List.Forall₂ (KeyEntry.Rel fun (group : KeyEntry Cell) total => log.TotalOf group.items total)
      (ofList ((ofList items).map fun group => (group.key.take n, group))) (ofList totals) :=
    ofList_rel (List.forall₂_map_left_iff.2 h)
  refine (List.forall₂_comp_iff.2 ⟨_, htotals.flip, hgroups⟩).imp ?_
  rintro coarse direct ⟨groups, hcoarse, hkey, hperm⟩
  refine ⟨hcoarse.key.symm.trans hkey, groups.items.map KeyEntry.items, ?_, ?_⟩
  · exact List.forall₂_map_left_iff.2 hcoarse.items
  · rwa [← List.flatMap_def]

/-- A supplied table is grouped by some columns and others for the totals of an integer field (`fine`), these
are grouped once more for their totals (`coarse`), and the table is grouped by the former columns at once
(`direct`). The latter two have no other columns. -/
structure Schema.RollUp (s : Schema) (source : TableDefinition) (keys rest : List String) (amount : String)
    (fine coarse direct : Totals) : Prop where
  supplied : source ∈ s.tables
  integer : ⟨amount, .integer⟩ ∈ source.fields
  derived : ∀ x ∈ [fine, coarse, direct], x.definition ∈ s.derived
  fineSums : fine.SumsUp source.name keys rest amount
  coarseSums : coarse.SumsUp fine.definition.name fine.copies [] fine.total
  directSums : direct.SumsUp source.name keys [] amount
  columns : ∀ x ∈ [coarse, direct],
    x.definition.columns.map FunctionDefinition.name = x.copies ++ [x.total]

/-- A payload of an integer field, which was made from nothing. -/
def Cell.Supplied (log : EdgeLog) (cell : Cell) : Prop :=
  cell.payload.conforms .integer ∧ log.ownedBy cell.value.id = []

section

variable {schema : Schema} {first : Nat} {setup : Setup} {s : State} {cs : List Commit} {c : Commit}
  {source : TableDefinition} {amount : String} (compiled : schema.compile first = .ok setup.catalog)
include compiled

/-- In every row of a supplied table that is committed an integer field has a cell. -/
theorem State.MadeOf.exists_supplied (h : s.MadeOf setup cs) (hsource : source ∈ schema.tables)
    (hamount : ⟨amount, .integer⟩ ∈ source.fields) (hc : c ∈ cs) (hname : c.table.name = source.name) :
    ∃ t, bindSource setup.catalog (Commit.storeOf cs) source.name = .ok t ∧ ∀ r ∈ t.rows,
      ∃ cell, (Binding.single t r).lookup ⟨source.name, amount⟩ = .ok (some cell) ∧ cell.Supplied s.log := by
  have hwf := Schema.wellFormed_of_compile compiled
  have hcompiled := Schema.compiled_of_compile compiled
  have hknown := h.history.known hc
  obtain ⟨_, _, -, follows⟩ := h.history.exists_follows hc
  rcases follows.cases_of_staged with ⟨rows, hsupplied⟩ | ⟨_, _, _, _, _, hcomputed⟩
  · have hbind := h.history.bindSource_eq hwf hc (hsupplied.filledWith hwf)
    refine ⟨_, hname ▸ hbind, fun r hr => ?_⟩
    obtain ⟨cell, hcell, hsupplied⟩ := h.exists_cell_of_supplied hwf hc hsupplied
      (hcompiled.single hwf hknown) (hcompiled.field_mem hsource hamount hknown hname) rfl hr
    exact ⟨cell, hname ▸ Binding.lookup_filled hr hcell, hsupplied⟩
  · cases (hcompiled.supplied_of_mem hsource hknown hname).symm.trans hcomputed.derived

namespace Schema.RollUp

variable {keys rest : List String} {fine coarse direct : Totals} {c' : Commit}

/-- The coarse and the direct table hold the totals of groups that roll up one to the other. -/
theorem exists_holds (h : s.MadeOf setup cs)
    (hup : schema.RollUp source keys rest amount fine coarse direct) (hc : c ∈ cs) (hc' : c' ∈ cs)
    (hname : c.table.name = coarse.definition.name) (hname' : c'.table.name = direct.definition.name) :
    ∃ groups names rows groups' names' rows', coarse.Holds setup s.log c groups names rows ∧
      direct.Holds setup s.log c' groups' names' rows' ∧
      List.Forall₂ (KeyEntry.RollsUp s.log) groups groups' ∧
      ∀ group ∈ groups', ∀ cell ∈ group.items, cell.Supplied s.log := by
  have hwf := Schema.wellFormed_of_compile compiled
  have hfine : fine.definition ∈ schema.derived := hup.derived _ (by simp)
  have hcoarse : coarse.definition ∈ schema.derived := hup.derived _ (by simp)
  have hdirect : direct.definition ∈ schema.derived := hup.derived _ (by simp)
  obtain ⟨⟨cf, hcf, hnamef⟩, -⟩ := hup.coarseSums.exists_computed compiled hcoarse hc hname h.history
  obtain ⟨⟨co, hco, hnameo⟩, -⟩ := hup.fineSums.exists_computed compiled hfine hcf hnamef h.history
  obtain ⟨t, hbind, hcells⟩ := h.exists_supplied compiled hup.supplied hup.integer hco hnameo
  obtain ⟨items, hitems⟩ := hup.fineSums.exists_amounts compiled hfine hcf hnamef hbind h.history
    fun r hr => (hcells r hr).imp fun _ hcell => hcell.1
  -- The fine table is the source of the coarse one, with its totals for amounts.
  obtain ⟨namesf, rowsf, hholdsf⟩ := hup.fineSums.exists_holds compiled hfine hcf hnamef hbind h hitems
  obtain ⟨totals, htotals, hpairs⟩ := hholdsf.exists_amounts
  have hbindf := h.history.bindSource_eq hwf hcf hholdsf.filled
  rw [hnamef] at hbindf htotals
  obtain ⟨names, rows, hholds⟩ :=
    hup.coarseSums.exists_holds compiled hcoarse hc hname hbindf h (by rwa [List.append_nil])
  have hfirst : t.Amounts (keys.map (ColumnName.mk source.name)) ⟨source.name, amount⟩
      (items.map fun i => (i.1.take fine.copies.length, i.2)) := by
    rw [List.map_append] at hitems
    simpa [hup.fineSums.copies.length_eq] using hitems.take
  obtain ⟨names', rows', hholds'⟩ :=
    hup.directSums.exists_holds compiled hdirect hc' hname' hbind h (by rwa [List.append_nil])
  refine ⟨_, names, rows, _, names', rows', hholds, hholds', KeyIndex.rollsUp_ofList hpairs,
    fun group hgroup cell hcell => ?_⟩
  have hmem := (KeyIndex.flatMap_items_perm _).mem_iff.1 (List.mem_flatMap.2 ⟨group, hgroup, hcell⟩)
  obtain ⟨i, hi, rfl⟩ := List.mem_map.1 hmem
  obtain ⟨r, hr, -, hlookup⟩ := hfirst.exists_of_mem_right hi
  obtain ⟨cell, hcell, hsupplied⟩ := hcells r hr
  cases hcell.symm.trans hlookup
  exact hsupplied

end Schema.RollUp

end

namespace Run

/-- Two rows hold the same payloads in the same order, and the leaves of the lineage of the total of the first
one are what that of the second one was made from. -/
structure RowsAgree (r : Run) (total total' : String) (x y : RowView) : Prop where
  payloads : x.cells.map CellView.payload = y.cells.map CellView.payload
  lineage : ∃ cell cell' report report', x.cell? total = some cell ∧ y.cell? total' = some cell' ∧
    r.lineageWithin cell.value none = .ok report ∧ r.lineageWithin cell'.value none = .ok report' ∧
    ∀ e, e ∈ report.leaves ↔ e ∈ report'.direct.map Edge.target

variable {r : Run} {cs : List Commit}

/-- The cells of a committed table can be looked up. -/
theorem lookup_cell (hwf : r.setup.catalog.WellFormed) (h : r.state.MadeOf r.setup cs) {c : Commit}
    (hc : c ∈ cs) {table column : String} {names : List String} {rows : List (List Scalar)}
    (hfilled : c.FilledWith r.setup names rows) {x : SourceRow} {cell : Cell}
    (hx : x ∈ (SourceTable.filled c.draft.extent.populated table names rows).rows)
    (hcell : x.cell? column = some cell) : (r.lookup cell.value).isSome := by
  obtain ⟨v, hv, rfl, -⟩ :=
    Extent.exists_value_of_mem_cells hfilled.columns hx (SourceRow.mem_of_cell? hcell)
  rw [← hfilled.extent] at hv
  exact lookup_value (h.sound hwf) (h.mem_values hc hv)

/-- What a total was made from in the end and what another one was made from are the same where the group of
the one rolls up to that of the other. -/
theorem Reachable.exists_reports (h : r.Reachable) {group group' : KeyEntry Cell} {total total' : Cell}
    (hrolls : group.RollsUp r.state.log group')
    (hsupplied : ∀ cell ∈ group'.items, cell.Supplied r.state.log)
    (htotal : r.state.log.TotalOf group.items total) (htotal' : r.state.log.TotalOf group'.items total')
    (hlookup : (r.lookup total.value).isSome) (hlookup' : (r.lookup total'.value).isSome) :
    ∃ report report', r.lineageWithin total.value none = .ok report ∧
      r.lineageWithin total'.value none = .ok report' ∧
      ∀ e, e ∈ report.leaves ↔ e ∈ report'.direct.map Edge.target := by
  obtain ⟨parts, hparts, hperm⟩ := hrolls.parts
  refine ⟨_, _, lineageWithin_of_some h.acyclic hlookup, lineageWithin_of_some h.acyclic hlookup',
    fun e => ?_⟩
  have hleaves : ∀ cell ∈ parts.flatten, r.state.log.ownedBy cell.value.id = [] := fun cell hcell =>
    (hsupplied cell (hperm.mem_iff.1 hcell)).2
  calc e ∈ (r.reportOf total.value none).leaves
      ↔ Relation.TransGen r.state.log.Leads total.value e ∧ r.state.log.ownedBy e.id = [] :=
        (h.exact_reportOf hlookup).leaves e
    _ ↔ e ∈ parts.flatten.map Cell.value := EdgeLog.TotalOf.leaf_iff hparts htotal hleaves
    _ ↔ e ∈ group'.items.map Cell.value := (hperm.map _).mem_iff
    _ ↔ e ∈ (r.reportOf total'.value none).direct.map Edge.target := htotal'.mem_targets_iff.symm

variable {s : Schema} {first : Nat} {source : TableDefinition} {keys rest : List String} {amount : String}
  {fine coarse direct : Totals} {view view' : TableView}

/-- Totals of totals agree with totals at once: when both tables are materialized, they have the same rows in
the same order, with the same payloads, and what a total of totals was made from in the end is what the total
at once was made from. -/
theorem Reachable.rollUp_agrees (h : r.Reachable) (compiled : s.compile first = .ok r.setup.catalog)
    (hup : s.RollUp source keys rest amount fine coarse direct)
    (hcoarse : r.tableView coarse.definition.name = .ok view)
    (hdirect : r.tableView direct.definition.name = .ok view') :
    List.Forall₂ (r.RowsAgree coarse.total direct.total) view.rows view'.rows := by
  obtain ⟨hwf, cs, hmade⟩ := h.exists_madeOf
  obtain ⟨c, hc, hname, rfl⟩ := exists_of_tableView hwf hmade hcoarse
  obtain ⟨c', hc', hname', rfl⟩ := exists_of_tableView hwf hmade hdirect
  obtain ⟨groups, names, rows, groups', names', rows', hholds, hholds', hgroups, hsupplied⟩ :=
    hup.exists_holds compiled hmade hc hc' hname hname'
  have hcopies : coarse.copies.length = direct.copies.length := by
    rw [← hup.coarseSums.copies.length_eq, ← hup.fineSums.copies.length_eq, hup.directSums.copies.length_eq]
  -- Rows of the two tables stand side by side with their groups.
  have hplaces := List.forall₂_comp_iff.2 ⟨_, hholds.grouped.flip.mem_left, List.forall₂_comp_iff.2
    ⟨_, hgroups.mem_right, hholds'.grouped.mem_right⟩⟩
  rw [hholds.filled.extent, hholds'.filled.extent, Extent.view_filled hholds.filled.columns,
    Extent.view_filled hholds'.filled.columns]
  refine List.forall₂_map_left_iff.2 (List.forall₂_map_right_iff.2 ?_)
  refine (List.forall₂_map_left_iff.1 (List.forall₂_map_right_iff.1 hplaces)).imp ?_
  rintro x y ⟨group, ⟨hx, hrow⟩, group', ⟨hgroup, hrolls⟩, hy, hrow'⟩
  have hsupplied := hsupplied group' hgroup
  obtain ⟨total, htotal, htotalOf, hpayloads⟩ := hholds.payloads_of_row (hup.columns _ (by simp)) hx hrow
  obtain ⟨total', htotal', htotalOf', hpayloads'⟩ :=
    hholds'.payloads_of_row (hup.columns _ (by simp)) hy hrow'
  obtain ⟨parts, hparts, hperm⟩ := hrolls.parts
  have hpayload : total.payload = total'.payload :=
    htotalOf.payload_eq hparts htotalOf' hperm fun cell hcell => (hsupplied cell hcell).1
  obtain ⟨report, report', hreport, hreport', hleaves⟩ := h.exists_reports hrolls hsupplied htotalOf htotalOf'
    (lookup_cell hwf hmade hc hholds.filled hx htotal)
    (lookup_cell hwf hmade hc' hholds'.filled hy htotal')
  refine ⟨?_, ⟨coarse.total, total.value, total.payload⟩, ⟨direct.total, total'.value, total'.payload⟩, report,
    report', ?_, ?_, hreport, hreport', hleaves⟩
  · rw [RowView.payloads_ofSource, RowView.payloads_ofSource, hpayloads, hpayloads', hrolls.key, hcopies,
      hpayload]
  · rw [RowView.cell?_ofSource, htotal]
    rfl
  · rw [RowView.cell?_ofSource, htotal']
    rfl

end Run

namespace Sample

/-- A table with the totals of another one under some keys, and the regions of these. -/
def totalsOf (name source : String) (keys : List String) : Totals :=
  ⟨⟨name, none, .group source (keys.map (ColumnName.mk source)),
    [⟨"region", none, "", .column ⟨source, "region"⟩⟩,
      ⟨"amount", none, "", .aggregate .sum (.column ⟨source, "amount"⟩)⟩]⟩, ["region"], "amount"⟩

def sales : TableDefinition := ⟨"sale", [⟨"region", .text⟩, ⟨"city", .text⟩, ⟨"amount", .integer⟩]⟩

/-- Sales, their totals in every city, and those in every region: of the totals of its cities, and of its
sales at once. -/
def rolled : Schema where
  name := "shop"
  tables := [sales]
  hierarchies := []
  derived := [(totalsOf "city" "sale" ["region", "city"]).definition,
    (totalsOf "region" "city" ["region"]).definition, (totalsOf "total" "sale" ["region"]).definition]

def rolledCatalog : Catalog where
  id := ⟨0⟩
  name := "shop"
  fingerprint := rolled.fingerprint
  tables := [.database ⟨1⟩ "sale",
    ⟨⟨2⟩, "city", some ⟨⟨5⟩, .group "sale" [⟨"sale", "region"⟩, ⟨"sale", "city"⟩], [⟨.databaseTable, ⟨1⟩⟩],
      [⟨.databaseField, ⟨8⟩⟩, ⟨.databaseField, ⟨9⟩⟩]⟩⟩,
    ⟨⟨3⟩, "region", some ⟨⟨6⟩, .group "city" [⟨"city", "region"⟩], [⟨.derivedTable, ⟨2⟩⟩],
      [⟨.function, ⟨11⟩⟩]⟩⟩,
    ⟨⟨4⟩, "total", some ⟨⟨7⟩, .group "sale" [⟨"sale", "region"⟩], [⟨.databaseTable, ⟨1⟩⟩],
      [⟨.databaseField, ⟨8⟩⟩]⟩⟩]
  columns := rolled.compileColumns 0
  hierarchies := []

/-- Two sales in the north, and in the south one without an amount. -/
def rolledRun : Run :=
  ((Engine.start ⟨rolledCatalog, ⟨none, .abort, true, true⟩, .empty⟩ 20 .epoch "run" []
    ⟨[("sale", [[("region", .text "north"), ("city", .text "a"), ("amount", .int 3)],
      [("region", .text "south"), ("city", .text "b"), ("amount", .null)],
      [("region", .text "north"), ("city", .text "b"), ("amount", .int 5)]])]⟩).after
        (.materialize "region")).after (.materialize "total")

theorem rollUp_rolled : rolled.RollUp sales ["region"] ["city"] "amount"
    (totalsOf "city" "sale" ["region", "city"]) (totalsOf "region" "city" ["region"])
    (totalsOf "total" "sale" ["region"]) where
  supplied := List.mem_singleton_self _
  integer := List.mem_of_getElem? (i := 2) rfl
  derived x hx := List.mem_map_of_mem hx
  fineSums := ⟨rfl, .cons ⟨_, List.mem_cons_self, rfl, rfl⟩ .nil, _, List.mem_of_getElem? (i := 1) rfl, rfl, rfl⟩
  coarseSums := ⟨rfl, .cons ⟨_, List.mem_cons_self, rfl, rfl⟩ .nil, _, List.mem_of_getElem? (i := 1) rfl, rfl, rfl⟩
  directSums := ⟨rfl, .cons ⟨_, List.mem_cons_self, rfl, rfl⟩ .nil, _, List.mem_of_getElem? (i := 1) rfl, rfl, rfl⟩
  columns x hx := by
    rcases List.mem_pair.1 hx with rfl | rfl <;> rfl

/-- The totals of regions are the same from those of cities and from sales. -/
theorem rolledUp_sales :
    ∃ view view', rolledRun.tableView "region" = .ok view ∧ rolledRun.tableView "total" = .ok view' ∧
      view.rows.length = 2 ∧
      List.Forall₂ (rolledRun.RowsAgree "amount" "amount") view.rows view'.rows := by
  have hcompiled : rolled.compile 0 = .ok rolledCatalog := rfl
  have hreachable : rolledRun.Reachable := .call (.call (.start hcompiled (by decide)) _) _
  refine ⟨_, _, rfl, rfl, rfl, ?_⟩
  exact Run.Reachable.rollUp_agrees hreachable hcompiled rollUp_rolled rfl rfl

end Sample

end Provenance
