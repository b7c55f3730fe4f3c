import Provenance.Proofs.Speculative.Derived

/-!
# Policies differ in the columns that need something missing

Where the sources of a derived table are materialized alike, leaving out the columns that need something
missing and filling them with a literal fail with the same error, or the tables differ in these columns only
(`Run.Widens`). If there is no such column aborting gives the same result; if there is one it fails.
Main statement: `Run.Reachable.speculative`.
-/

namespace Provenance

/-- The column of a table with a name needs nothing missing. -/
def Catalog.isComplete (c : Catalog) (t : Table) (name : String) : Bool :=
  (c.columnsOf t.id).any fun col => col.name = name && (col.missing c).isEmpty

theorem Catalog.isComplete_iff {c : Catalog} {t : Table} {col : Column} (hnamed : c.Named)
    (ht : t ∈ c.tables) (hcol : col ∈ c.columnsOf t.id) : c.isComplete t col.name ↔ col.missing c = [] := by
  simp only [isComplete, List.any_eq_true, Bool.and_eq_true, decide_eq_true_iff, List.isEmpty_iff]
  refine ⟨fun ⟨other, hother, hsame, hmissing⟩ => ?_, fun hmissing => ⟨col, hcol, rfl, hmissing⟩⟩
  rwa [← List.inj_on_of_nodup_map (hnamed.single t ht) hother hcol hsame]

/-- The identities of a materialized table, its rows and its values. -/
def TableView.ids (t : TableView) : List Id := t.populated.id :: t.shown.map Entity.id

namespace Run

/-- A derived table in two runs, the second of which has it with further columns. A renaming of identities
carries the sources of the table, and the table itself, from one run to the other: the rows in their order,
and of each the values in the columns that need nothing missing, with the edges that they own. Every other
column holds a literal in all rows of the second table and owns no edge. -/
structure Widens (ρ : Id → Id) (l : Scalar) (t : Table) (view view' : TableView) (r r' : Run) : Prop where
  table : r.tableView t.name = .ok view
  table' : r'.tableView t.name = .ok view'
  sources : ∀ u, r.setup.catalog.Reads t u →
    ∃ source, r.tableView u.name = .ok source ∧ r'.tableView u.name = .ok (source.rename ρ)
  apart : Set.InjOn ρ {id | ∃ u source, (u = t ∨ r.setup.catalog.Reads t u) ∧
    r.tableView u.name = .ok source ∧ id ∈ source.ids}
  columns : view'.columns = (r.setup.catalog.columnsOf t.id).map Column.name
  complete : view.rename ρ = view'.only (r.setup.catalog.isComplete t)
  edges : ∀ e ∈ view.shown,
    r'.state.log.ownedBy (ρ e.id) = (r.state.log.ownedBy e.id).map (Edge.rename ρ)
  definitions : ∀ e, r.setup.catalog.Defines t e → r'.state.log.ownedBy e.id = r.state.log.ownedBy e.id
  cells : ∀ row ∈ view'.rows, row.cells.map CellView.column = view'.columns
  filled : ∀ row ∈ view'.rows, ∀ cell ∈ row.cells, r.setup.catalog.isComplete t cell.column = false →
    cell.payload = l ∧ r'.state.log.ownedBy cell.value.id = []
  undefined : ∀ col ∈ r.setup.catalog.columnsOf t.id, col.missing r.setup.catalog ≠ [] →
    r'.state.log.ownedBy col.id = []

/-- Materializing a table fails with the same error in two runs, or the second one has it with further columns
that hold a literal. -/
def MaterializesWider (l : Scalar) (t : Table) (r r' : Run) : Prop :=
  (∃ e, (r.materialize t.name).1 = .error e ∧ (r'.materialize t.name).1 = .error e) ∨
    ∃ ρ view view', (r.materialize t.name).1 = .ok view ∧ (r'.materialize t.name).1 = .ok view' ∧
      Widens ρ l t view view' (r.materialize t.name).2 (r'.materialize t.name).2

/-- Another run over the same schema and data, under some policy, that has the sources of a table as the first
one has them and has not failed at the table. -/
structure Rival (r : Run) (policy : SpeculativePolicy) (t : Table) (r' : Run) : Prop where
  reachable : r'.Reachable
  setup : r'.setup = r.setup.under policy
  unfailed : r'.Unfailed t
  alike : r.SourcesAlike r' t

variable {r r' r'' : Run} {cs cs' : List Commit} {t : Table} {creation : Creation} {l : Scalar}
  {policy : SpeculativePolicy} {ρ : Id → Id}

/-! ## Views of parts -/

section

variable {c c' : Commit} {keep : String → Bool} {cols cols' : List Column} {rows rows' : List (List Scalar)}
  (hwf : r.setup.catalog.WellFormed) (h : r.state.MadeOf r.setup cs) (h' : r'.state.MadeOf r'.setup cs')
  (hcatalog : r'.setup.catalog = r.setup.catalog)
  (hc : c ∈ cs) (hc' : c' ∈ cs') (htable : c.table = c'.table)
  (hextent : c.draft.extent = .filled c.draft.extent.populated (cols.map Column.id) rows)
  (hextent' : c'.draft.extent = .filled c'.draft.extent.populated (cols'.map Column.id) rows')
include hwf h h' hcatalog hc hc' htable hextent hextent'

/-- A table that is a part of another one is viewed as that one is in some columns. -/
theorem view_of_part (hcols : ∀ col ∈ cols', col ∈ r.setup.catalog.columns)
    (hpart : Extent.Part keep cols cols' rows rows')
    (hρ : ∀ e e', r.state.store.Meets r'.state.store e e' → e' = e.rename ρ) :
    ∃ view view', r.tableView c.table.name = .ok view ∧ r'.tableView c.table.name = .ok view' ∧
      view = c.draft.extent.view r.setup.catalog c.table.name ∧
      view' = c'.draft.extent.view r.setup.catalog c.table.name ∧
      view.rename ρ = view'.only keep ∧
      ∀ id ∈ view.ids, ∃ e e', r.state.store.Meets r'.state.store e e' ∧ e.id = id := by
  have hview' := tableView_of_committed (hcatalog ▸ hwf) h' hc'
  rw [hcatalog, ← htable] at hview'
  have hmeets : ∀ e e', c.draft.extent.Meets c'.draft.extent e e' → r.state.store.Meets r'.state.store e e' :=
    fun _ _ => meets_of_extents h h' hc hc' htable
  refine ⟨_, _, tableView_of_committed hwf h hc, hview', rfl, rfl, ?_, fun id hid => ?_⟩
  · rw [hextent, hextent'] at hmeets ⊢
    exact hpart.view_eq hwf hcols (fun e e' hm => hρ e e' (hmeets e e' hm)) _
  · rcases List.mem_cons.1 hid with rfl | hid
    · exact ⟨_, _, hmeets _ _ .populated, rfl⟩
    · obtain ⟨e, he, rfl⟩ := List.mem_map.1 hid
      have he := Extent.mem_entities_of_mem_shown he
      rw [hextent] at he
      obtain ⟨e', hm⟩ := hpart.exists_meets he
      rw [← hextent, ← hextent'] at hm
      exact ⟨e, e', hmeets e e' hm, rfl⟩

end

/-! ## Derived tables -/

section

variable {before before' after after' : List Commit} {c c' : Commit} {sources sources' : List SourceTable}
  {plan plan' : List ColumnPlan} {frames frames' : List RowFrame} {rows rows' : List ComputedRow}
  (h : r.Derived before after c creation sources plan frames rows)
  (h' : r'.Derived before' after' c' creation sources' plan' frames' rows')
  (hskip : r.setup.settings.policy = .skip) (hsetup : r'.setup = r.setup.under policy)
  (htable : c'.table = c.table)
include h h' hsetup htable

/-- What is planned in the wider table is computed in the columns that need nothing missing. -/
theorem Derived.isComputed_eq (hnamed : r.setup.catalog.Named) : ∀ planned ∈ plan',
    planned.isComputed = r.setup.catalog.isComplete c.table planned.column.name := by
  intro planned hplanned
  have hcol := h'.mem_columns _ (List.mem_map_of_mem hplanned)
  have hplan := h'.computed.planned
  rw [hsetup] at hcol hplan
  rw [htable] at hcol
  rw [Bool.eq_iff_iff, Catalog.isComplete_iff hnamed h.follows.known hcol]
  exact Plan.isComputed_of_mem hplan hplanned

include hskip

theorem Derived.widened {E : Entity → Entity → Prop} (hE : Entity.Renames E)
    (hextends : Plan.Extends r.setup.catalog policy l (r.setup.catalog.columnsOf c.table.id))
    (hsources : List.Forall₂ (SourceTable.Renamed E) sources sources') :
    Plan.Widens l (r.setup.catalog.columnsOf c.table.id) plan plan' ∧
      List.Forall₂ (ComputedRow.Widened E l plan plan') rows rows' := by
  have htabulate := h.tabulate
  have htabulate' : Derive.tabulate r.setup.catalog r.setup.functions policy c.table creation sources' =
      .ok (plan', rows') := by
    have htabulate' := h'.tabulate
    rwa [htable, hsetup] at htabulate'
  have hrel := Derive.tabulate_widened r.setup.functions creation hE hextends hsources
  rw [← hskip, htabulate, htabulate'] at hrel
  cases hrel with
  | ok hrel => exact hrel

omit hskip

variable (hplan : Plan.Widens l (r.setup.catalog.columnsOf c.table.id) plan plan')

include hplan in
/-- Definitions own the same edges in both runs. -/
theorem Derived.ownedBy_definition_eq {e : Entity} (he : r.setup.catalog.Defines c.table e) :
    r'.state.log.ownedBy e.id = r.state.log.ownedBy e.id := by
  have he' : r'.setup.catalog.Defines c'.table e := by
    rw [hsetup, htable]
    exact he
  rw [h.ownedBy_definition he, h'.ownedBy_definition he', Derive.definitionEdges_eq creation hplan, hsetup]
  rfl

include hplan in
/-- A column that needs something missing owns no edge. -/
theorem Derived.ownedBy_missing {col : Column} (hcol : col ∈ r.setup.catalog.columnsOf c.table.id)
    (hmissing : col.missing r.setup.catalog ≠ []) : r'.state.log.ownedBy col.id = [] := by
  have hdefines : r.setup.catalog.Defines c.table col.entity := .inr ⟨col, hcol, rfl⟩
  rw [← col.entity_id, Derived.ownedBy_definition_eq h h' hsetup htable hplan hdefines, col.entity_id]
  refine h.ownedBy_of_not_planned hcol fun planned hplanned hsame => hmissing ?_
  rw [hplan.computed] at hplanned
  obtain ⟨hplanned, hcomputed⟩ := List.mem_filter.1 hplanned
  have hplan' := h'.computed.planned
  rw [hsetup] at hplan'
  rw [← hsame]
  exact (Plan.isComputed_of_mem hplan' hplanned).1 hcomputed

end

section

variable (hwf : r.setup.catalog.WellFormed) (hnamed : r.setup.catalog.Named)
  (h : r.state.MadeOf r.setup cs) (h' : r'.state.MadeOf r'.setup cs') (ht : t ∈ r.setup.catalog.tables)
  (hcreation : t.creation = some creation) (hskip : r.setup.settings.policy = .skip)
  (hsetup : r'.setup = r.setup.under policy)
  (hextends : Plan.Extends r.setup.catalog policy l (r.setup.catalog.columnsOf t.id))
  (halike : r.SourcesAlike r' t)
include hwf hnamed h h' halike

/-- Sources that are viewed alike are so up to a renaming that fits the places of the stores. -/
theorem SourcesAlike.exists_view (hcatalog : r'.setup.catalog = r.setup.catalog)
    (hρ : ∀ e e', r.state.store.Meets r'.state.store e e' → e' = e.rename ρ) {u : Table}
    (hreads : r.setup.catalog.Reads t u) :
    ∃ source, r.tableView u.name = .ok source ∧ r'.tableView u.name = .ok (source.rename ρ) ∧
      ∀ id ∈ source.ids, ∃ e e', r.state.store.Meets r'.state.store e e' ∧ e.id = id := by
  obtain ⟨_, _, hview, hview'⟩ := halike u hreads
  obtain ⟨c, hc, c', hc', hname, cols, rows, hfilled, hcols⟩ :=
    exists_filledAlike hwf hnamed h h' hcatalog hview hview'
  obtain ⟨source, _, hsource, hsource', -, -, hsame, hids⟩ := view_of_part hwf h h' hcatalog hc hc'
    hfilled.table hfilled.extent hfilled.extent' hcols (.all cols rows) hρ
  rw [TableView.only_true] at hsame
  rw [hname] at hsource hsource'
  exact ⟨source, hsource, hsame ▸ hsource', hids⟩

include ht hcreation hskip hsetup hextends

/-- A table that both runs derive over sources that are alike has the same rows in both, and differs in the
columns that need something missing only. -/
theorem exists_widens {c c' : Commit} (hc : c ∈ cs) (hc' : c' ∈ cs') (htable : c.table = t)
    (htable' : c'.table = c.table) : ∃ ρ view view', Widens ρ l t view view' r r' := by
  subst htable
  have hcatalog : r'.setup.catalog = r.setup.catalog := by rw [hsetup]; rfl
  have hE := renames_stores hwf h h' hcatalog
  obtain ⟨_, _, sources, plan, frames, rows, hderived⟩ := exists_derived hwf h hc hcreation
  obtain ⟨_, _, sources', plan', frames', rows', hderived'⟩ :=
    exists_derived (hcatalog ▸ hwf) h' hc' (htable'.symm ▸ hcreation)
  have hsources := bindSources_rel hwf hnamed h h' hcatalog ht halike hcreation
  rw [hderived.bound, hderived'.bound] at hsources
  cases hsources with | ok hsources => ?_
  have hkeep := Derived.isComputed_eq hderived hderived' hsetup htable' hnamed
  obtain ⟨hplan, hrows⟩ :=
    Derived.widened hderived hderived' hskip hsetup htable' hE hextends hsources
  obtain ⟨ρ, hρ, hinj⟩ := hE.exists_renaming
  have hmeets := fun e e' hm => hρ e e' (meets_of_extents h h' hc hc' htable'.symm hm)
  have hcols : ∀ col ∈ plan'.map ColumnPlan.column, col ∈ r.setup.catalog.columns := fun col hcol =>
    hcatalog ▸ (Catalog.mem_columnsOf.1 (hderived'.mem_columns col hcol)).1
  obtain ⟨view, view', hview, hview', hextent, hextent', hsame, hids⟩ := view_of_part hwf h h' hcatalog hc
    hc' htable'.symm hderived.extent hderived'.extent hcols (Derive.part_of_widened hplan hkeep hrows) hρ
  have hcells : ∀ row ∈ view'.rows, _ := fun row hrow =>
    cells_of_view hderived' hplan hrows hkeep (hcatalog ▸ hextent' ▸ hrow)
  have hcolumns : view'.columns = (r.setup.catalog.columnsOf c.table.id).map Column.name := by
    rw [hextent', hderived'.extent, Extent.view_filled_of_columns hwf hcols, hplan.columns]
  refine ⟨ρ, view, view', hview, hview', fun u hreads => ?_, hinj.mono ?_, hcolumns, hsame,
    fun e he => ?_, ?_, fun row hrow => ?_, fun row hrow => (hcells row hrow).2, ?_⟩
  · obtain ⟨source, hsource, hsource', -⟩ := halike.exists_view hwf hnamed h h' hcatalog hρ hreads
    exact ⟨source, hsource, hsource'⟩
  · rintro id ⟨u, source, rfl | hreads, hsource, hid⟩
    · cases hview.symm.trans hsource
      exact hids id hid
    · obtain ⟨_, hsource', -, hsources⟩ := halike.exists_view hwf hnamed h h' hcatalog hρ hreads
      cases hsource'.symm.trans hsource
      exact hsources id hid
  · rw [hextent] at he
    exact ownedBy_rename hderived hderived' hrows hmeets hρ (Extent.mem_entities_of_mem_shown he)
  · exact fun e he => Derived.ownedBy_definition_eq hderived hderived' hsetup htable' hplan he
  · exact (hcells row hrow).1.trans hcolumns.symm
  · exact fun col hcol => Derived.ownedBy_missing hderived hderived' hsetup htable' hplan hcol

/-- Materializing a table that can be had in both runs is compared after both were asked for it. -/
theorem materializesWider_of_ok (hok : (r.initTable t.name).1 = .ok ())
    (hok' : (r'.initTable t.name).1 = .ok ()) : MaterializesWider l t r r' := by
  have hcatalog : r'.setup.catalog = r.setup.catalog := by rw [hsetup]; rfl
  have hfind := hwf.table_of_mem ht
  have hfind' : r'.setup.catalog.table t.name = .ok t := hcatalog ▸ hfind
  obtain ⟨hsame, ds, hmade, c, hc, rfl⟩ := committed_of_initTable hwf h hfind hok
  obtain ⟨hsame', ds', hmade', c', hc', htable'⟩ := committed_of_initTable (hcatalog ▸ hwf) h' hfind' hok'
  have halike' := halike.initTable hwf h h' hcatalog hfind
  rw [← hsame] at hwf hnamed hmade ht hskip hextends
  rw [← hsame'] at hmade'
  have hsetup' : (r'.initTable c.table.name).2.setup = (r.initTable c.table.name).2.setup.under policy := by
    rw [hsame', hsame, hsetup]
  obtain ⟨ρ, view, view', hwidens⟩ := exists_widens hwf hnamed hmade hmade' ht hcreation hskip hsetup'
    hextends halike' hc hc' rfl htable'
  obtain ⟨hview, hrun⟩ := materialize_of_ok hok
  obtain ⟨hview', hrun'⟩ := materialize_of_ok hok'
  exact .inr ⟨ρ, view, view', hview.trans hwidens.table, hview'.trans hwidens.table',
    hrun ▸ hrun' ▸ hwidens⟩

end

/-! ## Runs -/

theorem materialize_of_error {name : String} {e : Error} (h : (r.initTable name).1 = .error e) :
    (r.materialize name).1 = .error e := by
  unfold materialize
  generalize r.initTable name = out at h ⊢
  obtain ⟨result, r'⟩ := out
  cases h
  rfl

section

variable (h : r.Reachable) (hunfailed : r.Unfailed t) (hcreation : t.creation = some creation)
include h hunfailed hcreation

/-- What comes of asking rivals for a table is what comes of deriving it over corresponding sources. -/
theorem Rival.exists_drafts (hrival : r.Rival policy t r') :
    ∃ E p p' sources sources', Entity.Renames E ∧ p.Of t ∧ p'.Of t ∧
      List.Forall₂ (SourceTable.Renamed E) sources sources' ∧
      (r.initTable t.name).1 = (Derive.draft r.setup p t creation sources).map (fun _ => ()) ∧
      (r'.initTable t.name).1 =
        (Derive.draft (r.setup.under policy) p' t creation sources').map fun _ => () := by
  obtain ⟨hreachable', hsetup, hunfailed', halike⟩ := hrival
  obtain ⟨_, _, compiled⟩ := h.exists_compile
  have hnamed := Schema.named_of_compile compiled
  obtain ⟨hwf, cs, hmade⟩ := h.exists_madeOf
  obtain ⟨hwf', cs', hmade'⟩ := hreachable'.exists_madeOf
  have hcatalog : r'.setup.catalog = r.setup.catalog := by rw [hsetup]; rfl
  obtain ⟨hcommitted, hcommitted'⟩ := halike.committed hwf hnamed hmade hmade' hcatalog hunfailed.known
  obtain ⟨sources, sources', hbound, hbound', hsources⟩ :=
    halike.exists_bound hwf hnamed hmade hmade' hcatalog hunfailed.known hcreation
  obtain ⟨p, hp, hresult⟩ := initTable_of_bound hwf hmade hunfailed hcreation hcommitted hbound
  obtain ⟨p', hp', hresult'⟩ := initTable_of_bound hwf' hmade' hunfailed' hcreation hcommitted' hbound'
  exact ⟨_, p, p', sources, sources', renames_stores hwf hmade hmade' hcatalog, hp, hp', hsources, hresult,
    hsetup ▸ hresult'⟩

/-- Where a column needs something missing, aborting tells of it, or every other policy fails alike. -/
theorem Rival.aborts (hrival : r.Rival .abort t r')
    (hmissing : ∃ col ∈ r.setup.catalog.columnsOf t.id, col.missing r.setup.catalog ≠ []) :
    (∃ col ∈ r.setup.catalog.columnsOf t.id, ∃ name ∈ col.missing r.setup.catalog,
      (r'.materialize t.name).1 = .error (.unresolvedSpeculative name)) ∨
      ∃ e, (r.materialize t.name).1 = .error e ∧ (r'.materialize t.name).1 = .error e := by
  obtain ⟨E, p, p', sources, sources', hE, hp, hp', hsources, hresult, hresult'⟩ :=
    hrival.exists_drafts h hunfailed hcreation
  -- Aborting fails over the sources of one run as it does over those of the other.
  have hsame : Except.Rel _ (Derive.draft (r.setup.under .abort) p t creation sources)
      (Derive.draft (r.setup.under .abort) p' t creation sources') :=
    Derive.draft_rel h.exists_madeOf.1 hunfailed.known hcreation hE hp hp' hsources
  rcases Derive.draft_abort p creation sources hmissing with
    ⟨col, hcol, name, hname, habort⟩ | ⟨e, hall⟩
  · rw [habort] at hsame
    rw [hsame.eq_error] at hresult'
    exact .inl ⟨col, hcol, name, hname, materialize_of_error hresult'⟩
  · rw [hall] at hsame
    rw [hsame.eq_error] at hresult'
    rw [← Setup.under_self r.setup, hall] at hresult
    exact .inr ⟨e, materialize_of_error hresult, materialize_of_error hresult'⟩

/-- Where a policy plans as if to fill columns that need something missing, a table fails as it does where
they are left out, or comes out wider. -/
theorem Rival.materializesWider (hskip : r.setup.settings.policy = .skip) (hrival : r.Rival policy t r')
    (hextends : Plan.Extends r.setup.catalog policy l (r.setup.catalog.columnsOf t.id)) :
    MaterializesWider l t r r' := by
  obtain ⟨E, p, p', sources, sources', hE, hp, hp', hsources, hresult, hresult'⟩ :=
    hrival.exists_drafts h hunfailed hcreation
  have hrel := Derive.draft_rel_of_extends r.setup hcreation hp hp' hE hextends hsources
  rw [← hskip, Setup.under_self] at hrel
  generalize Derive.draft r.setup p t creation sources = out at hrel hresult
  generalize Derive.draft (r.setup.under policy) p' t creation sources' = out' at hrel hresult'
  cases hrel with
  | error => exact .inl ⟨_, materialize_of_error hresult, materialize_of_error hresult'⟩
  | ok =>
    obtain ⟨_, _, compiled⟩ := h.exists_compile
    obtain ⟨hwf, cs, hmade⟩ := h.exists_madeOf
    obtain ⟨-, cs', hmade'⟩ := hrival.reachable.exists_madeOf
    exact materializesWider_of_ok hwf (Schema.named_of_compile compiled) hmade hmade' hunfailed.known
      hcreation hskip hrival.setup hextends hrival.alike hresult hresult'

end

/-- A derived table is materialized in a run that leaves out the columns that need something missing, and in
others that have its sources as that one has them. Filling these columns with a literal fails with the same
error, or gives the same table but for them. Aborting gives this result too if there is no such column. If
there is one aborting tells of something that it misses, unless all policies fail with the same error. -/
theorem Reachable.speculative (h : r.Reachable) (hskip : r.setup.settings.policy = .skip)
    (hunfailed : r.Unfailed t) (hderived : t.creation.isSome) :
    (∀ l r', r.Rival (.default l) t r' → MaterializesWider l t r r') ∧
    ∀ r'', r.Rival .abort t r'' →
      ((∀ col ∈ r.setup.catalog.columnsOf t.id, col.missing r.setup.catalog = []) →
        ∀ l, MaterializesWider l t r r'') ∧
      ((∃ col ∈ r.setup.catalog.columnsOf t.id, col.missing r.setup.catalog ≠ []) →
        (∃ col ∈ r.setup.catalog.columnsOf t.id, ∃ name ∈ col.missing r.setup.catalog,
          (r''.materialize t.name).1 = .error (.unresolvedSpeculative name)) ∨
        ∃ e, (r''.materialize t.name).1 = .error e ∧ (r.materialize t.name).1 = .error e ∧
          ∀ l r', r.Rival (.default l) t r' → (r'.materialize t.name).1 = .error e) := by
  obtain ⟨creation, hcreation⟩ := Option.isSome_iff_exists.1 hderived
  have hfill : ∀ l r', r.Rival (.default l) t r' → MaterializesWider l t r r' := fun l _ hrival =>
    hrival.materializesWider h hunfailed hcreation hskip (Plan.extends_default _ l _)
  refine ⟨hfill, fun r'' hrival => ⟨fun hcomplete l => ?_, fun hmissing => ?_⟩⟩
  · exact hrival.materializesWider h hunfailed hcreation hskip (Plan.extends_abort l hcomplete)
  · refine (hrival.aborts h hunfailed hcreation hmissing).imp_right fun ⟨e, herror, habort⟩ => ?_
    refine ⟨e, habort, herror, fun l r' hdefault => ?_⟩
    rcases hfill l r' hdefault with ⟨e', hsame, hsame'⟩ | ⟨_, view, _, hview, -⟩
    · cases hsame.symm.trans herror
      exact hsame'
    · cases hview.symm.trans herror

end Run

namespace Sample

/-- Sales at a rate that no cube of the schema gives. -/
def quoted : Schema where
  name := "quoted"
  tables := [⟨"sale", [⟨"amount", .integer⟩]⟩]
  hierarchies := []
  derived := [⟨"quote", none, .enrichment "sale",
    [⟨"amount", none, "", .column ⟨"sale", "amount"⟩⟩, ⟨"rate", none, "", .speculative ⟨"fx", "rate"⟩⟩]⟩]

def quote : Creation := ⟨⟨3⟩, .enrichment "sale", [⟨.databaseTable, ⟨1⟩⟩], []⟩

def quotedCatalog : Catalog where
  id := ⟨0⟩
  name := "quoted"
  fingerprint := quoted.fingerprint
  tables := [.database ⟨1⟩ "sale", ⟨⟨2⟩, "quote", some quote⟩]
  columns := quoted.compileColumns 0
  hierarchies := []

def quotedStart (policy : SpeculativePolicy) : Run :=
  Engine.start ⟨quotedCatalog, ⟨none, policy, true, true⟩, .standard⟩ 10 .epoch "run" []
    ⟨[("sale", [[("amount", .int 3)], [("amount", .int 5)]])]⟩

/-- The sales are materialized under a policy. -/
def quotedRun (policy : SpeculativePolicy) : Run := (quotedStart policy).after (.materialize "sale")

theorem reachable_quotedRun (policy : SpeculativePolicy) : (quotedRun policy).Reachable := by
  have hcompiled : quoted.compile 0 = .ok quotedCatalog := rfl
  have hstart : (quotedStart policy).Reachable := .start hcompiled (by decide)
  exact .call hstart _

theorem rival_quotedRun (policy : SpeculativePolicy) :
    (quotedRun .skip).Rival policy ⟨⟨2⟩, "quote", some quote⟩ (quotedRun policy) where
  reachable := reachable_quotedRun policy
  setup := rfl
  unfailed := ⟨List.mem_cons_of_mem _ List.mem_cons_self, rfl⟩
  alike := by
    rintro u ⟨hu, hsource⟩
    have hsale : u = .database ⟨1⟩ "sale" := by
      rcases List.mem_cons.1 hu with rfl | hu
      · rfl
      · cases List.mem_singleton.1 hu
        cases List.mem_singleton.1 hsource
    subst hsale
    exact ⟨_, id, rfl, rfl⟩

/-- The quotes have no rates, or unknown ones, and are aborted for them. -/
theorem speculative_quote :
    (∃ ρ view view', view.columns = ["amount"] ∧ view'.columns = ["amount", "rate"] ∧
      Run.Widens ρ (.text "unknown") ⟨⟨2⟩, "quote", some quote⟩ view view'
        ((quotedRun .skip).materialize "quote").2
        ((quotedRun (.default (.text "unknown"))).materialize "quote").2) ∧
      ∃ name, ((quotedRun .abort).materialize "quote").1 = .error (.unresolvedSpeculative name) := by
  have hskipped : ((quotedRun .skip).materialize "quote").1.map TableView.columns = .ok ["amount"] := rfl
  have hmissing : ∃ col ∈ quotedCatalog.columnsOf ⟨2⟩, col.missing quotedCatalog ≠ [] :=
    ⟨_, List.mem_cons_of_mem _ List.mem_cons_self, by decide⟩
  obtain ⟨hfill, habort⟩ := Run.Reachable.speculative (reachable_quotedRun .skip) rfl
    (rival_quotedRun .skip).unfailed rfl
  constructor
  · rcases hfill _ _ (rival_quotedRun (.default (.text "unknown"))) with
      ⟨e, herror, -⟩ | ⟨ρ, view, view', hview, -, hwidens⟩
    · rw [herror] at hskipped
      cases hskipped
    · rw [hview] at hskipped
      exact ⟨ρ, view, view', Except.ok.inj hskipped, hwidens.columns, hwidens⟩
  · rcases (habort _ (rival_quotedRun .abort)).2 hmissing with ⟨_, -, name, -, htold⟩ | ⟨e, -, herror, -⟩
    · exact ⟨name, htold⟩
    · rw [herror] at hskipped
      cases hskipped

end Sample

end Provenance
