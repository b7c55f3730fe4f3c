import Mathlib.Data.List.Find
import Provenance.Proofs.Catalog.Transfer
import Provenance.Proofs.Evaluation.Extension
import Provenance.Proofs.Initialization.Renaming
import Provenance.Proofs.Store.Image

/-!
# Staging where more is defined

A table that is staged over a catalog is staged in the same way over one that has more definitions, if its image
there begins where a renaming takes it, if its sources differ by that renaming, and if no further column of a
cube that it names is there (`Populate.exists_image`, `Derive.exists_image`): its columns are planned and filled
alike, and the edges of the draft differ by the renaming (`Draft.Image`).
-/

namespace Provenance

variable {ρ : Id → Id} {c c' : Catalog}

/-- The columns of cubes that the expression of a column names. -/
def Column.cubeColumns (col : Column) : List CubeColumn := (col.expr?.map Expr.cubeColumns).getD []

/-- The columns of cubes that the definition of a table names. -/
def Catalog.cubeColumnsOf (c : Catalog) (t : Table) : List CubeColumn :=
  (t.creation.map fun creation => creation.approach.cubeColumns).getD [] ++
    (c.columnsOf t.id).flatMap Column.cubeColumns

/-- Setups of which the second one has a catalog with more definitions. -/
structure Setup.ExtendedBy (setup setup' : Setup) : Prop where
  catalog : setup.catalog.ExtendedBy setup'.catalog
  settings : setup'.settings = setup.settings
  functions : setup'.functions = setup.functions
  data : setup'.data = setup.data

/-- A draft with its identities renamed. -/
structure Draft.Image (ρ : Id → Id) (d d' : Draft) : Prop where
  extent : d.extent.Image ρ d'.extent
  edges : d'.edges = d.edges.map (Edge.rename ρ)

/-! ## Supplied tables -/

namespace Populate

variable {t t' : Table} {columns columns' : List Column}

theorem held_image (hname : t'.name = t.name) {col col' : Column} (hcol : col.Image ρ c col') (n : Nat)
    (r : SourceRecord) : held t n r col = held t' n r col' := by
  unfold held fieldType payload
  rcases hcol.kind with ⟨type, hk, hk'⟩ | ⟨_, _, _, _, hk, hk', -⟩
  · rw [hk, hk', hcol.name, hname]
  · rw [hk, hk', hcol.name, hname]

/-- A record holds the same in all fields of an image. -/
theorem supply_image (hname : t'.name = t.name) (hcols : List.Forall₂ (Column.Image ρ c) columns columns')
    (strict : Bool) (record : SourceRecord × Nat) :
    supply strict t columns record = supply strict t' columns' record := by
  have hnames : columns.map Column.name = columns'.map Column.name := hcols.map_eq fun _ _ h => h.name.symm
  have hall : ∀ name : String, (columns.all fun column => column.name ≠ name) =
      columns'.all fun column => column.name ≠ name := by
    intro name
    have hall := congrArg (List.all · fun x => decide (x ≠ name)) hnames
    rwa [List.all_map, List.all_map] at hall
  have hheld : columns.mapM (held t record.2 record.1) = columns'.mapM (held t' record.2 record.1) :=
    hcols.mapM_eq fun _ _ hcol => held_image hname hcol record.2 record.1
  unfold supply checkFields
  simp only [hall, hname, hheld]

/-- A supplied table is filled from the same records. -/
theorem exists_image {setup setup' : Setup} {p p' : Populated} {d : Draft} (h : setup.ExtendedBy setup')
    (ht : t.Image ρ setup.catalog setup'.catalog t') (hp : p.Of t) (hp' : p'.Of t') (himage : p.Image ρ p')
    (hmoves : ∀ k, ρ ⟨p.id.number + k⟩ = ⟨p'.id.number + k⟩) (hc : t.creation = none) (hc' : t'.creation = none)
    (hd : draft setup p t = .ok d) : ∃ d', draft setup' p' t' = .ok d' ∧ d.Image ρ d' := by
  rw [draft_eq (hp.database hc) hp.table] at hd
  obtain ⟨rows, hrows, rfl⟩ := Except.map_eq_ok_iff.1 hd
  have hcolumns : (setup'.catalog.columnsOf t'.id).map Column.id =
      ((setup.catalog.columnsOf t.id).map Column.id).map ρ := by
    rw [List.map_map]
    exact (ht.columns.map_eq fun _ _ hcol => hcol.id.symm).symm
  rw [funext (supply_image ht.name ht.columns _), ← ht.name, ← h.settings, ← h.data] at hrows
  rw [draft_eq (hp'.database hc') hp'.table, hrows, hcolumns]
  exact ⟨_, rfl, Extent.image_filled _ rows himage hmoves, rfl⟩

end Populate

/-! ## Planned columns -/

/-- Columns that are filled alike in two catalogs. One that is computed refers to the renamed columns, and all
columns of cubes that it names are there in both catalogs or in none. -/
inductive ColumnPlan.Image (ρ : Id → Id) (c c' : Catalog) : ColumnPlan → ColumnPlan → Prop
  | compute {col col' : Column} {e : Expr} (column : col.Image ρ c col')
      (references : col'.references = col.references.map (Entity.rename ρ))
      (cubes : c.AgreeOn c' e.cubeColumns) : Image ρ c c' (.compute col e) (.compute col' e)
  | fill {col col' : Column} {value : Scalar} (column : col.Image ρ c col') :
      Image ρ c c' (.fill col value) (.fill col' value)

theorem ColumnPlan.Image.column {planned planned' : ColumnPlan} (h : planned.Image ρ c c' planned') :
    planned.column.Image ρ c planned'.column := by
  cases h with
  | compute column => exact column
  | fill column => exact column

namespace Plan

variable {sources : List SourceTable} {policy : SpeculativePolicy} {table : String}

theorem missingCube?_extended {e : Expr} (hcubes : c.AgreeOn c' e.cubeColumns) :
    missingCube? c' sources e = missingCube? c sources e := by
  have hhas : ∀ name ∈ e.cubeParams, c'.hasColumn name.toColumn = c.hasColumn name.toColumn :=
    fun name hname => hcubes name (mem_distinct.1 hname)
  unfold missingCube?
  dsimp only
  rw [List.find?_congr fun name hname => congrArg (· && !anyHasColumn sources name.toColumn) (hhas name hname),
    List.find?_congr fun name hname => congrArg (!·) (hhas name hname)]

theorem checkFilter_extended {a : Approach} (hcubes : c.AgreeOn c' a.cubeColumns) :
    checkFilter c' sources a = checkFilter c sources a := by
  cases a with
  | enrichment | join | group => rfl
  | filter source predicate =>
    unfold checkFilter
    dsimp only
    rw [missingCube?_extended hcubes]

/-- A column is planned alike where more is defined, over sources whose columns were defined before. -/
theorem column_image {col col' : Column} (hcol : col.Image ρ c col') (hcubes : c.AgreeOn c' col.cubeColumns)
    (hknown : ∀ name, anyHasColumn sources name = true → c.hasColumn name = true) :
    Except.Rel (Option.Rel (ColumnPlan.Image ρ c c')) (column c policy sources table col)
      (column c' policy sources table col') := by
  unfold column
  rcases hcol.kind with ⟨type, hk, hk'⟩ | ⟨text, e, references, references', hk, hk', hreferences⟩
  · rw [hk, hk', hcol.name]
    exact .error
  · have hcubes : c.AgreeOn c' e.cubeColumns := by
      unfold Column.cubeColumns Column.expr? at hcubes
      rwa [hk] at hcubes
    rw [hk, hk']
    dsimp only
    split
    · exact .error
    · next hfind =>
      have hhas : ∀ name ∈ e.columns, c.hasColumn name := fun name hname =>
        hknown name (by simpa using List.find?_eq_none.1 hfind name (mem_distinct.2 hname))
      have hrenamed : col'.references = col.references.map (Entity.rename ρ) := by
        unfold Column.references
        rw [hk, hk']
        exact hreferences hhas
      rw [missingCube?_extended hcubes]
      refine Except.Rel.refl.bind ?_
      rintro missing _ rfl
      cases missing with
      | none => exact .ok (.some (.compute hcol hrenamed hcubes))
      | some name =>
        cases policy with
        | abort => exact .error
        | skip => exact .ok .none
        | default value => exact .ok (.some (.fill hcol))

theorem columns_image {cols cols' : List Column} (hcols : List.Forall₂ (Column.Image ρ c) cols cols')
    (hcubes : ∀ col ∈ cols, c.AgreeOn c' col.cubeColumns)
    (hknown : ∀ name, anyHasColumn sources name = true → c.hasColumn name = true) :
    Except.Rel (List.Forall₂ (ColumnPlan.Image ρ c c')) (columns c policy sources table cols)
      (columns c' policy sources table cols') := by
  refine (hcols.mem_left.mapM fun col _ ⟨hmem, hcol⟩ => column_image hcol (hcubes col hmem) hknown).bind ?_
  exact fun _ _ hoptions => .ok (List.rel_filterMap (fun _ _ h => h) hoptions)

end Plan

/-! ## Derived tables -/

def ComputedRow.rename (ρ : Id → Id) (row : ComputedRow) : ComputedRow :=
  ⟨row.sources.map (Entity.rename ρ), row.cells.map fun cell => (cell.1, cell.2.map (Entity.rename ρ))⟩

/-- If a renaming fits what corresponds in two rows, then they differ by it. -/
theorem ComputedRow.Renamed.eq_rename {E : Entity → Entity → Prop} {row row' : ComputedRow}
    (h : row.Renamed E row') (hE : ∀ e e', E e e' → e' = e.rename ρ) : row' = row.rename ρ := by
  have hmap : ∀ {es es' : List Entity}, List.Forall₂ E es es' → es' = es.map (Entity.rename ρ) := fun hes =>
    (List.map_id _).symm.trans (hes.map_eq fun e e' he => (hE e e' he).symm).symm
  obtain ⟨sources', cells'⟩ := row'
  have hcells : row.cells.map (fun cell => (cell.1, cell.2.map (Entity.rename ρ))) = cells'.map id :=
    h.cells.map_eq fun _ _ hcell => Prod.ext hcell.1 (hmap hcell.2).symm
  rw [rename, hcells, List.map_id, ← hmap h.sources]

namespace Draft

variable {p p' : Populated} {columns : List Id} {definitions : List Edge} {rows : List ComputedRow}
  (hmoves : ∀ k, ρ ⟨p.id.number + k⟩ = ⟨p'.id.number + k⟩)
include hmoves

theorem edges_rename (row : ComputedRow) (width n : Nat) :
    (row.rename ρ).edges p' width n = (row.edges p width n).map (Edge.rename ρ) := by
  unfold ComputedRow.edges ComputedRow.rename
  rw [List.map_append, List.map_map, List.map_map, List.zipIdx_map, List.flatMap_map, List.map_flatMap]
  congr 1
  · refine List.map_congr_left fun e _ => ?_
    simp only [Function.comp, Edge.rename, Entity.rename, rename_rowId hmoves]
  · congr 1
    funext cell
    simp only [Prod.map, List.map_map, id]
    refine List.map_congr_left fun e _ => ?_
    simp only [Function.comp, Edge.rename, Entity.rename, rename_valueId hmoves]

/-- A derived table with its identities moved on, from rows that were renamed. -/
theorem image_derived (hp : p.Image ρ p') :
    (derived p columns definitions rows).Image ρ
      (derived p' (columns.map ρ) (definitions.map (Edge.rename ρ)) (rows.map (ComputedRow.rename ρ))) where
  extent := by
    have hpayloads : (rows.map (ComputedRow.rename ρ)).map (fun row => row.cells.map Prod.fst) =
        rows.map fun row => row.cells.map Prod.fst := by
      rw [List.map_map]
      refine List.map_congr_left fun row _ => ?_
      simp only [Function.comp, ComputedRow.rename, List.map_map]
      rfl
    rw [derived, derived, hpayloads]
    exact Extent.image_filled columns _ hp hmoves
  edges := by
    have hrow : (fun row : ComputedRow × Nat => (row.1.rename ρ).edges p' columns.length row.2) =
        fun row => (row.1.edges p columns.length row.2).map (Edge.rename ρ) :=
      funext fun row => edges_rename hmoves row.1 columns.length row.2
    unfold derived
    dsimp only
    rw [List.length_map, List.map_append, List.zipIdx_map, List.flatMap_map, List.map_flatMap, ← hrow]
    rfl

end Draft

namespace Derive

variable {functions : Functions} {creation creation' : Creation} {plan plan' : List ColumnPlan}
  {frame : RowFrame} {row : ComputedRow}

/-- The edges between definitions differ by the renaming of the definitions. -/
theorem definitionEdges_image (hcreation : creation.Image ρ c creation')
    (hcolumns : ∀ name ∈ creation.approach.sourceColumns, c.hasColumn name)
    (hplan : List.Forall₂ (ColumnPlan.Image ρ c c') plan plan') :
    definitionEdges creation' plan' = (definitionEdges creation plan).map (Edge.rename ρ) := by
  unfold definitionEdges
  rw [hcreation.entity, hcreation.sourceTables, hcreation.sourceColumns hcolumns, List.map_append,
    List.map_append, List.map_map, List.map_map, List.map_map, List.map_map]
  congr 1
  rw [List.map_flatMap]
  refine (hplan.flatMap_eq fun _ _ hplanned => ?_).symm
  cases hplanned with
  | fill => rfl
  | compute column references =>
    dsimp only
    rw [references, column.entity, List.map_map, List.map_map]
    rfl

variable (hhierarchies : ∀ name h, c.hierarchy name = .ok h → c'.hierarchy name = .ok h)
include hhierarchies

theorem holds_image {planned planned' : ColumnPlan} {cell : Scalar × List Entity}
    (hplanned : planned.Image ρ c c' planned') (h : Holds c functions frame planned cell) :
    Holds c' functions frame planned' cell := by
  cases hplanned with
  | fill => exact h
  | compute _ _ cubes =>
    obtain ⟨result, hresult, hread, hcell⟩ := h
    exact ⟨result, Expr.evaluate_extended hhierarchies cubes hresult, hread, hcell⟩

/-- A row is filled with the same payloads from the same readings. -/
theorem fills_image (hplan : List.Forall₂ (ColumnPlan.Image ρ c c') plan plan')
    (h : Fills c functions plan frame row) : Fills c' functions plan' frame row :=
  ⟨h.1, (List.forall₂_comp_iff.2 ⟨plan, hplan.flip, h.2⟩).imp fun _ _ ⟨_, hplanned, hcell⟩ =>
    holds_image hhierarchies hplanned hcell⟩

end Derive

namespace Derive

variable {setup setup' : Setup} {t t' : Table} {p p' : Populated} {creation creation' : Creation} {d : Draft}
  {sources sources' : List SourceTable} {E : Entity → Entity → Prop}

/-- Over sources that differ by a renaming, the rows differ by it as well. -/
theorem exists_fills_renamed {functions : Functions} {plan : List ColumnPlan} {frames : List RowFrame}
    {rows : List ComputedRow} {a : Approach} (hE : Entity.Renames E)
    (hrename : ∀ e e', E e e' → e' = e.rename ρ)
    (hsources : List.Forall₂ (SourceTable.Renamed E) sources sources')
    (hframes : a.createRows c functions sources = .ok frames)
    (hfills : List.Forall₂ (Fills c functions plan) frames rows) :
    ∃ frames', a.createRows c functions sources' = .ok frames' ∧
      List.Forall₂ (Fills c functions plan) frames' (rows.map (ComputedRow.rename ρ)) := by
  obtain ⟨frames', hframes', hsame⟩ := (hframes ▸ Approach.createRows_rel hE hsources a).of_ok
  have hcomputed : frames.mapM (compute c functions plan) = .ok rows :=
    List.mapM_eq_ok_iff.2 (hfills.imp fun _ _ => compute_eq_ok_iff.2)
  have hrel : Except.Rel (List.Forall₂ (ComputedRow.Renamed E)) (frames.mapM (compute c functions plan))
      (frames'.mapM (compute c functions plan)) := hsame.mapM fun _ _ hframe => compute_rel hE hframe
  obtain ⟨rows', hcomputed', hrows⟩ := (hcomputed ▸ hrel).of_ok
  have heq : rows' = rows.map (ComputedRow.rename ρ) :=
    (List.map_id _).symm.trans (hrows.map_eq fun _ _ hrow => (hrow.eq_rename hrename).symm).symm
  exact ⟨frames', hframes', heq ▸ (List.mapM_eq_ok_iff.1 hcomputed').imp fun _ _ => compute_eq_ok_iff.1⟩

/-- A derived table is made of the same frames, and its columns are planned and filled alike. -/
theorem exists_image (h : setup.ExtendedBy setup') (ht : t.Image ρ setup.catalog setup'.catalog t')
    (hp : p.Of t) (hp' : p'.Of t') (himage : p.Image ρ p')
    (hmoves : ∀ k, ρ ⟨p.id.number + k⟩ = ⟨p'.id.number + k⟩)
    (hc : t.creation = some creation) (hc' : t'.creation = some creation')
    (hcreation : creation.Image ρ setup.catalog creation')
    (hcubes : setup.catalog.AgreeOn setup'.catalog (setup.catalog.cubeColumnsOf t)) (hE : Entity.Renames E)
    (hrename : ∀ e e', E e e' → e' = e.rename ρ)
    (hsources : List.Forall₂ (SourceTable.Renamed E) sources sources')
    (hknown : ∀ name, anyHasColumn sources name = true → setup.catalog.hasColumn name = true)
    (hd : draft setup p t creation sources = .ok d) :
    ∃ d', draft setup' p' t' creation' sources' = .ok d' ∧ d.Image ρ d' := by
  have happroach : setup.catalog.AgreeOn setup'.catalog creation.approach.cubeColumns := by
    refine hcubes.mono fun name hname => List.mem_append_left _ ?_
    rwa [hc]
  have hcols : ∀ col ∈ setup.catalog.columnsOf t.id, setup.catalog.AgreeOn setup'.catalog col.cubeColumns :=
    fun col hcol => hcubes.mono fun name hname =>
      List.mem_append_right _ (List.mem_flatMap.2 ⟨col, hcol, hname⟩)
  obtain ⟨hfilter, plan, hplan, frames, hframes, rows, hfills, rfl⟩ :=
    (draft_eq_ok_iff (hp.derived hc) hp.table).1 hd
  have hcolumns : ∀ name ∈ creation.approach.sourceColumns, setup.catalog.hasColumn name := fun name hname =>
    hknown name (Approach.anyHasColumn_of_createRows hframes name hname)
  -- First the catalog is exchanged, over the same sources.
  obtain ⟨plan', hplan', hplans⟩ := (hplan ▸ Plan.columns_image ht.columns hcols hknown).of_ok
  rw [← Plan.checkFilter_extended happroach] at hfilter
  have hfills' : List.Forall₂ (Fills setup'.catalog setup.functions plan') frames rows :=
    hfills.imp fun _ _ hfill => fills_image h.catalog.hierarchies hplans hfill
  -- Then the sources are exchanged, over the same catalog.
  rw [Plan.checkFilter_eq hsources] at hfilter
  rw [Plan.columns_eq hsources] at hplan'
  obtain ⟨frames', hframes', hfills''⟩ := exists_fills_renamed hE hrename hsources
    (Approach.createRows_extended h.catalog.hierarchies happroach hframes) hfills'
  refine ⟨_, (draft_eq_ok_iff (hp'.derived hc') hp'.table).2
    ⟨hcreation.approach ▸ hfilter, plan', ?_, frames', ?_, _, h.functions ▸ hfills'', rfl⟩, ?_⟩
  · rwa [h.settings, ht.name]
  · rwa [hcreation.approach, h.functions]
  · have hids : plan'.map (fun column => column.column.id) =
        (plan.map fun column => column.column.id).map ρ := by
      rw [List.map_map]
      exact (hplans.map_eq fun _ _ hcolumn => hcolumn.column.id.symm).symm
    have hdefinitions : (if setup'.settings.recordDefinitions then definitionEdges creation' plan' else []) =
        (if setup.settings.recordDefinitions then definitionEdges creation plan else []).map
          (Edge.rename ρ) := by
      rw [h.settings]
      split
      · exact definitionEdges_image hcreation hcolumns hplans
      · rfl
    rw [hids, hdefinitions]
    exact Draft.image_derived hmoves himage

end Derive

end Provenance
