import Provenance.Proofs.Edge.Log
import Provenance.Proofs.Initialization.Edges
import Provenance.Proofs.Rows.Bound

/-!
# What a staged table brings about

A staged table is filled from payloads, and each of its edges leads from the table itself to something that
is in the catalog or in the store (`grounded_of_stage`). So nothing stands in the way of committing it.
-/

namespace Provenance

/-- The entities that the edges of a table may belong to: its creation, its columns, its rows and its
values. -/
def Draft.Owns (c : Catalog) (t : Table) (d : Draft) (e : Entity) : Prop :=
  c.Defines t e ∨ e ∈ d.extent.entities

/-- An entity that an edge of a table may lead to: a definition, or a row or a value in the store. -/
def Store.Grounds (c : Catalog) (store : Store) (e : Entity) : Prop :=
  e ∈ c.entities ∨ (∃ r ∈ store.rows, r.entity = e) ∨ ∃ v ∈ store.values, v.entity = e

/-- A draft of a table that is filled from payloads and whose edges, each staged once, lead from the table
to what is there. -/
structure Draft.Grounded (c : Catalog) (store : Store) (t : Table) (d : Draft) : Prop where
  filled : ∃ rows, d.extent = .filled d.extent.populated d.extent.columns rows
  columns : ∀ id ∈ d.extent.columns, ∃ col ∈ c.columnsOf t.id, col.id = id
  nodup : d.edges.Nodup
  checked : ∀ edge ∈ d.edges, edge.check = .ok ()
  owners : ∀ edge ∈ d.edges, d.Owns c t edge.owner
  targets : ∀ edge ∈ d.edges, store.Grounds c edge.target

variable {setup : Setup} {store : Store} {p : Populated} {table : Table} {d : Draft}

theorem grounded_of_populate (horigin : p.origin = .database) (htable : p.table = table.id)
    (h : Populate.draft setup p table = .ok d) :
    d.Grounded setup.catalog store table ∧ d.extent.populated = p := by
  obtain ⟨rows, -, rfl⟩ := (Populate.draft_eq_ok_iff horigin htable).1 h
  refine ⟨⟨⟨rows, rfl⟩, fun id hid => ?_, .nil, fun _ hedge => absurd hedge List.not_mem_nil,
    fun _ hedge => absurd hedge List.not_mem_nil, fun _ hedge => absurd hedge List.not_mem_nil⟩, rfl⟩
  obtain ⟨col, hcol, rfl⟩ := List.mem_map.1 hid
  exact ⟨col, hcol, rfl⟩

/-- A definitional edge of a table leads from its definition to a definition. -/
theorem grounded_definitionEdge {creation : Creation} {plan : List ColumnPlan} {edge : Edge}
    (hwf : setup.catalog.WellFormed) (ht : table ∈ setup.catalog.tables)
    (hc : table.creation = some creation)
    (hplan : ∀ column ∈ plan, column.column ∈ setup.catalog.columnsOf table.id ∧
      column.column.expr?.isSome)
    (h : edge ∈ Derive.definitionEdges creation plan) :
    edge.check = .ok () ∧ d.Owns setup.catalog table edge.owner ∧
      store.Grounds setup.catalog edge.target := by
  have hcreation := hwf.creations table ht creation hc
  obtain ⟨owner, kind, target⟩ := edge
  rcases Derive.cases_of_mem_definitionEdges h with
    ⟨ho, ⟨hk, he⟩ | ⟨hk, he⟩⟩ | ⟨column, hcolumn, ho, hk, he⟩
  · dsimp only at ho hk he
    subst ho hk
    obtain ⟨t, ht', rfl, -⟩ := hcreation.tables _ he
    refine ⟨Edge.check_of_accepts rfl ?_, .inl (.inl ⟨creation, hc, rfl⟩),
      .inl (Catalog.table_entity_mem ht')⟩
    dsimp only
    rcases t.entity_kind with hk | hk <;> rw [hk] <;> rfl
  · dsimp only at ho hk he
    subst ho hk
    obtain ⟨col, hcol, rfl⟩ := hcreation.columns _ he
    refine ⟨Edge.check_of_accepts rfl ?_, .inl (.inl ⟨creation, hc, rfl⟩),
      .inl (Catalog.column_entity_mem hcol)⟩
    dsimp only
    rcases col.entity_kind with hk | hk <;> rw [hk] <;> rfl
  · dsimp only at ho hk he
    subst ho hk
    obtain ⟨hcol, hkind⟩ := hplan column hcolumn
    obtain ⟨col, hcol', rfl⟩ :=
      (hwf.columns _ (Catalog.mem_columnsOf.1 hcol).1).references _ he
    refine ⟨Edge.check_of_accepts ?_ ?_, .inl (.inr ⟨_, hcol, rfl⟩),
      .inl (Catalog.column_entity_mem hcol')⟩
    · rw [Column.entity_of_expr hkind]
      rfl
    · dsimp only
      rcases col.entity_kind with hk | hk <;> rw [hk] <;> rfl

/-- An edge of a row or a value leads from the table to a row or a value in the store. -/
theorem grounded_rowEdge {columns : List Id} {definitions : List Edge} {rows : List ComputedRow}
    {edge : Edge} (horigin : p.origin = .derived)
    (hrows : ∀ row ∈ rows, row.Sourced store ∧ row.cells.length = columns.length)
    (h : edge ∈ rows.zipIdx.flatMap fun row => row.1.edges p columns.length row.2) :
    edge.check = .ok () ∧
      (Draft.derived p columns definitions rows).Owns setup.catalog table edge.owner ∧
      store.Grounds setup.catalog edge.target := by
  obtain ⟨row, hrow, h⟩ := List.mem_flatMap.1 h
  obtain ⟨hsourced, hwidth⟩ := hrows _ (List.fst_mem_of_mem_zipIdx hrow)
  have hrow' : (row.1.cells.map Prod.fst, row.2) ∈
      (rows.map fun row => row.cells.map Prod.fst).zipIdx := by
    rw [List.zipIdx_map]
    exact List.mem_map_of_mem hrow
  obtain ⟨owner, kind, target⟩ := edge
  rcases ComputedRow.cases_of_mem_edges h with ⟨ho, hk, he⟩ | ⟨cell, hcell, ho, hk, he⟩
  · dsimp only at ho hk he
    subst ho hk
    obtain ⟨r, hr, rfl⟩ := hsourced.sources _ he
    refine ⟨Edge.check_of_accepts rfl ?_, .inr ?_, .inr (.inl ⟨r, hr, rfl⟩)⟩
    · unfold Row.entity
      cases r.origin <;> rfl
    · have hmem := Extent.row_entity_mem_filled p columns hrow'
      rwa [horigin] at hmem
  · dsimp only at ho hk he
    subst ho hk
    obtain ⟨v, hv, rfl⟩ := hsourced.cells _ (List.fst_mem_of_mem_zipIdx hcell) _ he
    refine ⟨Edge.check_of_accepts rfl ?_, .inr ?_, .inr (.inr ⟨v, hv, rfl⟩)⟩
    · unfold Value.entity
      cases v.origin <;> rfl
    · have hlt := List.snd_lt_of_mem_zipIdx hcell
      have hmem := Extent.value_entity_mem_filled p columns hrow' (hwidth ▸ hlt)
        (by rwa [List.length_map])
      rwa [horigin] at hmem

theorem grounded_of_derive {creation : Creation} {sources : List SourceTable}
    (hwf : setup.catalog.WellFormed) (ht : table ∈ setup.catalog.tables)
    (hc : table.creation = some creation) (horigin : p.origin = .derived)
    (htable : p.table = table.id)
    (hbound : ∀ t ∈ sources, ∃ table, SourceTable.bind setup.catalog store table = .ok t)
    (h : Derive.draft setup p table creation sources = .ok d) :
    d.Grounded setup.catalog store table ∧ d.extent.populated = p := by
  obtain ⟨-, plan, hplan, frames, hframes, rows, hfills, hd⟩ :=
    (Derive.draft_eq_ok_iff horigin htable).1 h
  have hcolumns : ∀ column ∈ plan, column.column ∈ setup.catalog.columnsOf table.id ∧
      column.column.expr?.isSome := fun column hcolumn =>
    have ⟨hcol, hplanned⟩ := Plan.exists_of_mem_columns hplan hcolumn
    ⟨hcol, (Plan.column_of_column hplanned).2⟩
  have hrows : ∀ row ∈ rows, row.Sourced store ∧
      row.cells.length = (plan.map fun column => column.column.id).length := by
    intro row hrow
    obtain ⟨frame, hframe, hfill⟩ := hfills.exists_of_mem_right hrow
    have hframed := Approach.framed_of_mem_createRows hframes hframe
    refine ⟨Derive.sourced_of_fills hbound hframed hfill, ?_⟩
    rw [List.length_map]
    exact hfill.2.length_eq.symm
  have hids : (plan.map fun column => column.column.id).Nodup := by
    have hsub := (Plan.sublist_of_columns hplan).trans List.filter_sublist
    have hnodup := hwf.nodup_columnIds.sublist (hsub.map Column.id)
    rwa [List.map_map] at hnodup
  have hdefinition : ∀ edge ∈ (if setup.settings.recordDefinitions then
      Derive.definitionEdges creation plan else []), edge ∈ Derive.definitionEdges creation plan := by
    intro edge hedge
    split at hedge
    · exact hedge
    · cases hedge
  have hedges : ∀ edge ∈ d.edges, edge.check = .ok () ∧ d.Owns setup.catalog table edge.owner ∧
      store.Grounds setup.catalog edge.target := by
    intro edge hedge
    rw [hd] at hedge ⊢
    rcases List.mem_append.1 hedge with hedge | hedge
    · exact grounded_definitionEdge hwf ht hc hcolumns (hdefinition edge hedge)
    · exact grounded_rowEdge horigin hrows hedge
  subst hd
  refine ⟨⟨⟨_, rfl⟩, fun id hid => ?_, ?_, fun edge hedge => (hedges edge hedge).1,
    fun edge hedge => (hedges edge hedge).2.1, fun edge hedge => (hedges edge hedge).2.2⟩, rfl⟩
  · obtain ⟨column, hcolumn, rfl⟩ := List.mem_map.1 hid
    exact ⟨_, (hcolumns column hcolumn).1, rfl⟩
  · refine List.nodup_append.2 ⟨?_, ?_, ?_⟩
    · split
      · exact Derive.nodup_definitionEdges (hwf.creations table ht creation hc)
          (fun column hcolumn => hwf.columns _ (Catalog.mem_columnsOf.1 (hcolumns column hcolumn).1).1)
          hids
      · exact .nil
    · exact ComputedRow.nodup_flatMap_edges fun row hrow =>
        ⟨(hrows row hrow).1, Nat.le_of_eq (hrows row hrow).2⟩
    · intro edge hedge edge' hedge'
      obtain ⟨row, -, hedge'⟩ := List.mem_flatMap.1 hedge'
      exact Derive.ne_of_mem_definitionEdges (hdefinition edge hedge) hedge'

/-- A draft that is staged over a store is grounded in it. -/
theorem grounded_of_stage (hwf : setup.catalog.WellFormed) (ht : table ∈ setup.catalog.tables)
    (horigin : p.origin = table.origin) (htable : p.table = table.id)
    (h : stage setup store p table = .ok d) :
    d.Grounded setup.catalog store table ∧ d.extent.populated = p := by
  unfold stage at h
  unfold Table.origin at horigin
  split at h
  · next hc =>
    rw [hc] at horigin
    exact grounded_of_populate horigin htable h
  · next creation hc =>
    rw [hc] at horigin
    obtain ⟨sources, hsources, h⟩ := Except.bind_eq_ok_iff.1 h
    exact grounded_of_derive hwf ht hc horigin htable (exists_bind_of_bindSources hsources) h

end Provenance
