import Provenance.Proofs.Initialization.Grounded
import Provenance.Proofs.Store.Twins

/-!
# Staging does not look at identities

A table that is staged over two stores, in which its sources were materialized from the same payloads, fails
with the same error in both, or is filled from the same payloads, and its edges correspond (`stage_rel`). What
the table is staged with has a part in it only as far as identities are concerned.
-/

namespace Provenance

/-- Edges of one kind between corresponding entities. -/
structure Edge.Renamed (F G : Entity → Entity → Prop) (edge edge' : Edge) : Prop where
  kind : edge.kind = edge'.kind
  owner : F edge.owner edge'.owner
  target : G edge.target edge'.target

/-- Rows made from corresponding rows, with the same payloads from corresponding values. -/
structure ComputedRow.Renamed (E : Entity → Entity → Prop) (row row' : ComputedRow) : Prop where
  sources : List.Forall₂ E row.sources row'.sources
  cells : List.Forall₂ (fun cell cell' => cell.1 = cell'.1 ∧ List.Forall₂ E cell.2 cell'.2)
    row.cells row'.cells

/-- Drafts filled from the same payloads, with the same edges between definitions and corresponding ones of
rows and values. -/
structure Draft.Renamed (c : Catalog) (E : Entity → Entity → Prop) (d d' : Draft) : Prop where
  twin : d.extent.Twin d'.extent
  edges : List.Forall₂
    (fun edge edge' => (edge = edge' ∧ edge.owner ∈ c.entities ∧ edge.target ∈ c.entities) ∨
      edge.Renamed (d.extent.Pairs d'.extent) E edge')
    d.edges d'.edges

variable {E : Entity → Entity → Prop} {sources sources' : List SourceTable}

/-! ## Rows -/

namespace Plan

variable {c : Catalog} (h : List.Forall₂ (SourceTable.Renamed E) sources sources')
include h

private theorem missingCube?_eq (e : Expr) : missingCube? c sources e = missingCube? c sources' e := by
  unfold missingCube?
  rw [funext (anyHasColumn_eq h)]

theorem checkFilter_eq (a : Approach) : checkFilter c sources a = checkFilter c sources' a := by
  unfold checkFilter
  simp only [missingCube?_eq h]

theorem columns_eq (policy : SpeculativePolicy) (table : String) (cols : List Column) :
    columns c policy sources table cols = columns c policy sources' table cols := by
  unfold columns column
  simp only [missingCube?_eq h, funext (anyHasColumn_eq h)]

end Plan

namespace Derive

variable {c : Catalog} {functions : Functions} {plan : List ColumnPlan} {frame frame' : RowFrame}

theorem cell_rel (hE : Entity.Renames E) (hframe : frame.Renamed E frame') (column : ColumnPlan) :
    Except.Rel (fun held held' => held.1 = held'.1 ∧ List.Forall₂ E held.2 held'.2)
      (cell c functions frame column) (cell c functions frame' column) := by
  cases column with
  | fill => exact .ok ⟨rfl, .nil⟩
  | compute _ e =>
    refine (Expr.evaluate_rel hE hframe.scope).bind fun result result' hsame => ?_
    have hempty : result.sources.isEmpty = result'.sources.isEmpty := by
      rw [Bool.eq_iff_iff, List.isEmpty_iff_length_eq_zero, List.isEmpty_iff_length_eq_zero,
        hsame.sources.length_eq]
    rw [hempty, hsame.nullExtended]
    split
    · exact .error
    · exact .ok ⟨hsame.value, hsame.sources⟩

theorem compute_rel (hE : Entity.Renames E) (hframe : frame.Renamed E frame') :
    Except.Rel (ComputedRow.Renamed E) (compute c functions plan frame)
      (compute c functions plan frame') := by
  have hplan : List.Forall₂ Eq plan plan := List.forall₂_same.2 fun _ _ => rfl
  refine (hplan.mapM ?_).bind fun cells cells' hcells => .ok ⟨hframe.sourceRows, hcells⟩
  rintro column _ rfl
  exact cell_rel hE hframe column

end Derive

/-! ## Edges -/

private theorem edges_renamed {F : Entity → Entity → Prop} {p p' : Populated} {width : Nat}
    {rows rows' : List ComputedRow}
    (hrow : ∀ n < rows.length, F ⟨.derivedRow, Draft.rowId p.id.number width n⟩
      ⟨.derivedRow, Draft.rowId p'.id.number width n⟩)
    (hvalue : ∀ n < rows.length, ∀ k < width, F ⟨.evaluatedValue, Draft.valueId p.id.number width n k⟩
      ⟨.evaluatedValue, Draft.valueId p'.id.number width n k⟩)
    (hwidth : ∀ row ∈ rows, row.cells.length = width)
    (h : List.Forall₂ (ComputedRow.Renamed E) rows rows') :
    List.Forall₂ (Edge.Renamed F E) (rows.zipIdx.flatMap fun row => row.1.edges p width row.2)
      (rows'.zipIdx.flatMap fun row => row.1.edges p' width row.2) := by
  have hrows := (h.zipIdx 0).mem_left
  refine List.rel_flatMap hrows ?_
  rintro ⟨row, n⟩ ⟨row', _⟩ ⟨hmem, hsame, rfl⟩
  have hn : n < rows.length := List.snd_lt_of_mem_zipIdx hmem
  refine List.rel_append ?_ ?_
  · exact List.rel_map (fun e e' he => ⟨rfl, hrow n hn, he⟩) hsame.sources
  · have hcells := (hsame.cells.zipIdx 0).mem_left
    refine List.rel_flatMap hcells ?_
    rintro ⟨cell, k⟩ ⟨cell', _⟩ ⟨hcell, hsources, rfl⟩
    have hk : k < width :=
      hwidth row (List.fst_mem_of_mem_zipIdx hmem) ▸ List.snd_lt_of_mem_zipIdx hcell
    exact List.rel_map (fun e e' he => ⟨rfl, hvalue n hn k hk, he⟩) hsources.2

section

variable {setup : Setup} {store store' : Store} {p p' : Populated} {t : Table} {d : Draft}

theorem Derive.mem_entities_of_mem_definitionEdges {creation : Creation} {plan : List ColumnPlan}
    {edge : Edge} (hwf : setup.catalog.WellFormed) (ht : t ∈ setup.catalog.tables)
    (hc : t.creation = some creation)
    (hplan : ∀ column ∈ plan, column.column ∈ setup.catalog.columnsOf t.id)
    (h : edge ∈ definitionEdges creation plan) :
    edge.owner ∈ setup.catalog.entities ∧ edge.target ∈ setup.catalog.entities := by
  have hcreation := hwf.creations t ht creation hc
  rcases cases_of_mem_definitionEdges h with ⟨ho, ⟨-, he⟩ | ⟨-, he⟩⟩ | ⟨column, hcolumn, ho, -, he⟩
  · obtain ⟨t', ht', heq, -⟩ := hcreation.tables _ he
    exact ⟨ho ▸ Catalog.creation_entity_mem ht hc, heq ▸ Catalog.table_entity_mem ht'⟩
  · obtain ⟨col, hcol, heq⟩ := hcreation.columns _ he
    exact ⟨ho ▸ Catalog.creation_entity_mem ht hc, heq ▸ Catalog.column_entity_mem hcol⟩
  · have hcol := (Catalog.mem_columnsOf.1 (hplan column hcolumn)).1
    obtain ⟨col, hcol', heq⟩ := (hwf.columns _ hcol).references _ he
    exact ⟨ho ▸ Catalog.column_entity_mem hcol, heq ▸ Catalog.column_entity_mem hcol'⟩

/-- Tables that are filled by corresponding rows correspond. -/
theorem Draft.derived_renamed {columns : List Id} {definitions : List Edge} {rows rows' : List ComputedRow}
    (horigin : p.origin = .derived) (horigin' : p'.origin = .derived) (htable : p.table = p'.table)
    (hdefinitions : ∀ edge ∈ definitions, edge.owner ∈ setup.catalog.entities ∧
      edge.target ∈ setup.catalog.entities)
    (hwidth : ∀ row ∈ rows, row.cells.length = columns.length)
    (hrows : List.Forall₂ (ComputedRow.Renamed E) rows rows') :
    (derived p columns definitions rows).Renamed setup.catalog E (derived p' columns definitions rows') := by
  have hpayloads : (rows.map fun row => row.cells.map Prod.fst) =
      rows'.map fun row => row.cells.map Prod.fst :=
    hrows.map_eq fun _ _ hrow => hrow.cells.map_eq fun _ _ hcell => hcell.1
  have hlength : (rows.map fun row => row.cells.map Prod.fst).length = rows.length := List.length_map _
  let payloads := rows.map fun row => row.cells.map Prod.fst
  have htwin : (Extent.filled p columns payloads).Twin (.filled p' columns payloads) :=
    ⟨htable, horigin.trans horigin'.symm, columns, payloads, rfl, rfl⟩
  have hedges : List.Forall₂
      (Edge.Renamed ((Extent.filled p columns payloads).Pairs (.filled p' columns payloads)) E)
      (rows.zipIdx.flatMap fun row => row.1.edges p columns.length row.2)
      (rows'.zipIdx.flatMap fun row => row.1.edges p' columns.length row.2) := by
    refine edges_renamed (fun n hn => ?_) (fun n hn k hk => ?_) hwidth hrows
    · have hpair := @Extent.pairs_row p p' columns payloads n (horigin.trans horigin'.symm)
        (hlength.symm ▸ hn)
      rwa [horigin, horigin'] at hpair
    · have hpair := Extent.pairs_value (horigin.trans horigin'.symm) (hlength.symm ▸ hn) hk
      rwa [horigin, horigin'] at hpair
  have hextent : (derived p' columns definitions rows').extent = .filled p' columns payloads := by
    rw [derived, ← hpayloads]
  refine ⟨hextent ▸ htwin, ?_⟩
  rw [hextent]
  refine List.rel_append (List.forall₂_same.2 fun edge hedge => .inl ⟨rfl, hdefinitions edge hedge⟩) ?_
  exact hedges.imp fun _ _ hedge => .inr hedge

theorem Derive.draft_rel {creation : Creation} (hwf : setup.catalog.WellFormed)
    (ht : t ∈ setup.catalog.tables) (hc : t.creation = some creation) (hE : Entity.Renames E)
    (hp : p.Of t) (hp' : p'.Of t) (hsources : List.Forall₂ (SourceTable.Renamed E) sources sources') :
    Except.Rel (Draft.Renamed setup.catalog E) (draft setup p t creation sources)
      (draft setup p' t creation sources') := by
  have horigin := hp.derived hc
  have horigin' := hp'.derived hc
  rw [draft_eq horigin hp.table, draft_eq horigin' hp'.table, ← Plan.checkFilter_eq hsources,
    ← Plan.columns_eq hsources]
  refine Except.Rel.refl.bind fun _ _ _ => Except.Rel.refl.attach.bind ?_
  rintro plan _ ⟨hplan, rfl⟩
  refine (Approach.createRows_rel hE hsources creation.approach).bind fun frames frames' hframes => ?_
  refine (hframes.mapM fun _ _ hframe => compute_rel hE hframe).attach.bind ?_
  rintro rows rows' ⟨hcomputed, hrows⟩
  refine .ok (Draft.derived_renamed horigin horigin' (hp.table.trans hp'.table.symm) (fun edge hedge => ?_)
    (fun row hrow => ?_) hrows)
  · split at hedge
    · exact mem_entities_of_mem_definitionEdges hwf ht hc
        (fun _ hcolumn => (Plan.exists_of_mem_columns hplan hcolumn).1) hedge
    · cases hedge
  · obtain ⟨_, -, hfill⟩ := (List.mapM_eq_ok_iff.1 hcomputed).exists_of_mem_right hrow
    rw [List.length_map, (compute_eq_ok_iff.1 hfill).2.length_eq]

/-- A table that is staged over two stores which hold twins of its sources fails with the same error in both,
or the drafts differ in their identities only. -/
theorem stage_rel (hwf : setup.catalog.WellFormed) (hs : store.Sound) (hs' : store'.Sound)
    (ht : t ∈ setup.catalog.tables) (hp : p.Of t) (hp' : p'.Of t)
    (hsources : ∀ t', setup.catalog.Reads t t' →
      ∃ x ∈ store.extents, ∃ x' ∈ store'.extents, x.populated.table = t'.id ∧ x.Twin x') :
    Except.Rel (Draft.Renamed setup.catalog (store.Twins store')) (stage setup store p t)
      (stage setup store' p' t) := by
  unfold stage
  cases hc : t.creation with
  | none =>
    dsimp only
    rw [Populate.draft_eq (hp.database hc) hp.table, Populate.draft_eq (hp'.database hc) hp'.table]
    cases (setup.data.records t.name).zipIdx.mapM (Populate.supply setup.settings.strictColumns t
        (setup.catalog.columnsOf t.id)) with
    | error => exact .error
    | ok rows =>
      exact .ok ⟨⟨hp.table.trans hp'.table.symm, hp.origin.trans hp'.origin.symm, _, rows, rfl, rfl⟩, .nil⟩
  | some creation =>
    have hbound : Except.Rel (List.Forall₂ (SourceTable.Renamed (store.Twins store')))
        (creation.approach.sourceTables.mapM (bindSource setup.catalog store))
        (creation.approach.sourceTables.mapM (bindSource setup.catalog store')) := by
      have hnames : List.Forall₂ (fun name name' => name ∈ creation.approach.sourceTables ∧ name = name')
          creation.approach.sourceTables creation.approach.sourceTables :=
        List.forall₂_same.2 fun _ hname => ⟨hname, rfl⟩
      refine hnames.mapM ?_
      rintro name _ ⟨hname, rfl⟩
      obtain ⟨t', ht', rfl, hmem⟩ := (hwf.creations t ht creation hc).named name hname
      have hreads : setup.catalog.Reads t t' := ⟨ht', by rw [Table.sources, hc]; exact hmem⟩
      obtain ⟨x, hx, x', hx', htable, htwin⟩ := hsources t' hreads
      rw [bindSource_eq hwf hs ht' hx htable, bindSource_eq hwf hs' ht' hx' (htwin.table ▸ htable)]
      exact htwin.bind_rel (fun _ _ hpair => ⟨x, hx, x', hx', htwin, hpair⟩) t'.name
    exact hbound.bind fun _ _ hsame =>
      Derive.draft_rel hwf ht hc (Store.renames_twins hs hs') hp hp' hsame

/-- A table that can be staged over a store can be staged over every other one that holds twins of its
sources, and the drafts differ in their identities only. -/
theorem stage_renamed (hwf : setup.catalog.WellFormed) (hs : store.Sound) (hs' : store'.Sound)
    (ht : t ∈ setup.catalog.tables) (hp : p.Of t) (hp' : p'.Of t)
    (hsources : ∀ t', setup.catalog.Reads t t' →
      ∃ x ∈ store.extents, ∃ x' ∈ store'.extents, x.populated.table = t'.id ∧ x.Twin x')
    (h : stage setup store p t = .ok d) :
    ∃ d', stage setup store' p' t = .ok d' ∧ d.Renamed setup.catalog (store.Twins store') d' := by
  have hrel := stage_rel hwf hs hs' ht hp hp' hsources
  rw [h] at hrel
  exact hrel.of_ok

end

end Provenance
