import Provenance.Proofs.Lineage.Rows
import Provenance.Proofs.Store.Places
import Provenance.Proofs.Unresolved

/-!
# Sources that are materialized alike

Two runs over one catalog may show the sources of a table alike, up to a renaming (`Run.SourcesAlike`),
although they have brought about different things otherwise. Then the sources are bound with things in the
same place of both stores (`Run.bindSources_rel`), and what comes of asking for the table is what comes of
deriving it over them (`Run.initTable_of_bound`).
-/

namespace Provenance

theorem State.MadeOf.nodup_columns {setup : Setup} {s : State} {cs : List Commit}
    (hwf : setup.catalog.WellFormed) (h : s.MadeOf setup cs) : ∀ x ∈ s.store.extents, x.columns.Nodup := by
  intro x hx
  obtain ⟨c, hc, rfl⟩ := h.exists_of_mem_extents hx
  obtain ⟨_, _, -, follows⟩ := h.history.exists_follows hc
  obtain ⟨columns, rows, hlaid⟩ := follows.exists_laid
  have hcolumns : c.draft.extent.columns = columns.map Column.id := congrArg Extent.columns hlaid.extent
  have hsub : columns.Sublist setup.catalog.columns := hlaid.declared.trans List.filter_sublist
  rw [hcolumns]
  exact hwf.nodup_columnIds.sublist (hsub.map Column.id)

/-- Two commits of one table filled it from the same payloads. -/
structure Commit.FilledAlike (c c' : Commit) (cols : List Column) (rows : List (List Scalar)) : Prop where
  table : c.table = c'.table
  extent : c.draft.extent = .filled c.draft.extent.populated (cols.map Column.id) rows
  extent' : c'.draft.extent = .filled c'.draft.extent.populated (cols.map Column.id) rows

namespace Run

/-- The sources of a table are there in both runs, and are viewed alike up to a renaming. -/
def SourcesAlike (r r' : Run) (t : Table) : Prop :=
  ∀ u, r.setup.catalog.Reads t u →
    ∃ view ρ, r.tableView u.name = .ok view ∧ r'.tableView u.name = .ok (view.rename ρ)

/-- A table of the schema that has not failed. -/
structure Unfailed (r : Run) (t : Table) : Prop where
  known : t ∈ r.setup.catalog.tables
  untried : r.state.failureOf? t.id = none

variable {r r' : Run} {cs cs' : List Commit} {t u : Table} {creation : Creation} {name : String}
  {view : TableView}

/-- What is materialized is viewed alike after a table was asked for. -/
theorem tableView_initTable (hwf : r.setup.catalog.WellFormed) (h : r.state.MadeOf r.setup cs)
    (hfind : r.setup.catalog.table name = .ok t) {other : String} (hview : r.tableView other = .ok view) :
    (r.initTable name).2.tableView other = .ok view := by
  obtain ⟨cs', -, -, -, hsetup, hmade⟩ := initializes_of_table hwf h hfind
  obtain ⟨c, hc, rfl, rfl⟩ := exists_of_tableView hwf h hview
  have hlater := tableView_of_committed (r := (r.initTable name).2) (hsetup ▸ hwf) (hsetup ▸ hmade)
    (List.mem_append_left cs' hc)
  rwa [hsetup] at hlater

/-- Asking for a table that is there succeeds. -/
theorem initTable_of_initialized (hwf : r.setup.catalog.WellFormed) (h : r.state.MadeOf r.setup cs)
    (ht : t ∈ r.setup.catalog.tables) (hthere : r.state.isInitialized t.id = true) :
    (r.initTable t.name).1 = .ok () := by
  obtain ⟨cs', out, hout, hresult, -⟩ := initializes_of_table hwf h (hwf.table_of_mem ht)
  rw [hresult]
  refine (hout.same_of_initialized fun e he => ?_).1
  rw [List.mem_singleton.1 he]
  exact ⟨t, hwf.tableById?_of_mem ht, hthere⟩

/-- What comes of asking for a table that has not failed and whose sources are bound is what comes of deriving
it over them. -/
theorem initTable_of_bound (hwf : r.setup.catalog.WellFormed) (h : r.state.MadeOf r.setup cs)
    (hunfailed : r.Unfailed t) (hcreation : t.creation = some creation) {sources : List SourceTable}
    (hcommitted : ∀ e ∈ t.sources, ∃ c ∈ cs, c.table.entity = e)
    (hbound : creation.approach.sourceTables.mapM (bindSource r.setup.catalog r.state.store) = .ok sources) :
    ∃ p, p.Of t ∧ (r.initTable t.name).1 = (Derive.draft r.setup p t creation sources).map fun _ => () := by
  cases hnew : r.state.isInitialized t.id with
  | false =>
    obtain ⟨p, hp, ⟨d, hstage, hresult⟩ | ⟨e, hstage, hresult⟩⟩ :=
      exists_stage_of_pending hwf h ⟨hunfailed.known, hnew, hunfailed.untried⟩ hcommitted
    all_goals
      rw [stage_of_bound hcreation hbound] at hstage
      exact ⟨p, hp, by rw [hstage, hresult]; rfl⟩
  | true =>
    obtain ⟨c, hc, rfl⟩ := (h.isInitialized_iff hwf hunfailed.known).1 hnew
    obtain ⟨before, after, rfl, follows⟩ := h.history.exists_follows hc
    have hstage := follows.staged
    rw [h.store, h.history.bindSources_eq hwf hcreation] at hbound
    rw [stage_of_bound hcreation hbound] at hstage
    refine ⟨_, follows.populates, ?_⟩
    rw [initTable_of_initialized hwf h hunfailed.known hnew, hstage]
    rfl

/-- What has the same place in a table that two runs committed has so in their stores. -/
theorem meets_of_extents {c c' : Commit} {e e' : Entity} (h : r.state.MadeOf r.setup cs)
    (h' : r'.state.MadeOf r'.setup cs') (hc : c ∈ cs) (hc' : c' ∈ cs') (htable : c.table = c'.table)
    (hmeets : c.draft.extent.Meets c'.draft.extent e e') : r.state.store.Meets r'.state.store e e' := by
  have hp := h.history.populates hc
  have hp' := h'.history.populates hc'
  rw [← htable] at hp'
  exact ⟨_, h.mem_extents hc, _, h'.mem_extents hc', hp.table.trans hp'.table.symm,
    hp.origin.trans hp'.origin.symm, hmeets⟩

section

variable (hwf : r.setup.catalog.WellFormed) (hnamed : r.setup.catalog.Named) (h : r.state.MadeOf r.setup cs)
  (h' : r'.state.MadeOf r'.setup cs') (hcatalog : r'.setup.catalog = r.setup.catalog)
include hwf h h' hcatalog

theorem renames_stores : Entity.Renames (r.state.store.Meets r'.state.store) :=
  have hwf' : r'.setup.catalog.WellFormed := hcatalog ▸ hwf
  Store.renames_meets (h.sound hwf) (h'.sound hwf') (h.nodup_columns hwf) (h'.nodup_columns hwf')

include hnamed

/-- A table that is viewed alike in two runs was filled alike. -/
theorem exists_filledAlike {ρ : Id → Id} (hview : r.tableView name = .ok view)
    (hview' : r'.tableView name = .ok (view.rename ρ)) :
    ∃ c ∈ cs, ∃ c' ∈ cs', c.table.name = name ∧ ∃ cols rows, c.FilledAlike c' cols rows ∧
      ∀ col ∈ cols, col ∈ r.setup.catalog.columns := by
  obtain ⟨c, hc, rfl, rfl⟩ := exists_of_tableView hwf h hview
  obtain ⟨c', hc', hname, hviews⟩ := exists_of_tableView (hcatalog ▸ hwf) h' hview'
  obtain ⟨_, _, -, follows⟩ := h.history.exists_follows hc
  obtain ⟨_, _, -, follows'⟩ := h'.history.exists_follows hc'
  obtain ⟨cols, rows, hlaid⟩ := follows.exists_laid
  obtain ⟨cols', rows', hlaid'⟩ := follows'.exists_laid
  have hknown' := follows'.known
  have hdeclared' := hlaid'.declared
  rw [hcatalog] at hknown' hdeclared' hviews
  have htable : c'.table = c.table := List.inj_on_of_nodup_map hwf.names hknown' follows.known hname
  rw [htable] at hdeclared'
  have hmem : ∀ {cols : List Column}, cols.Sublist (r.setup.catalog.columnsOf c.table.id) →
      ∀ col ∈ cols, col ∈ r.setup.catalog.columns := fun hsub col hcol =>
    (Catalog.mem_columnsOf.1 (hsub.subset hcol)).1
  have hsingle : ∀ col ∈ cols, ∀ col' ∈ cols', col.name = col'.name → col = col' :=
    fun col hcol col' hcol' => List.inj_on_of_nodup_map (hnamed.single _ follows.known)
      (hlaid.declared.subset hcol) (hdeclared'.subset hcol')
  rw [hlaid.extent, hlaid'.extent] at hviews
  obtain ⟨rfl, rfl⟩ := Extent.eq_of_view hwf (hmem hlaid.declared) (hmem hdeclared')
    (fun row hrow => (hlaid.accepts row hrow).length_eq.symm)
    (fun row hrow => (hlaid'.accepts row hrow).length_eq.symm) hsingle hviews.symm
  exact ⟨c, hc, c', hc', rfl, cols, rows, ⟨htable.symm, hlaid.extent, hlaid'.extent⟩, hmem hlaid.declared⟩

variable (ht : t ∈ r.setup.catalog.tables) (halike : r.SourcesAlike r' t)
include ht halike

/-- Sources that are viewed alike are committed in both runs. -/
theorem SourcesAlike.committed : (∀ e ∈ t.sources, ∃ c ∈ cs, c.table.entity = e) ∧
    ∀ e ∈ t.sources, ∃ c ∈ cs', c.table.entity = e := by
  have hboth : ∀ e ∈ t.sources, ∃ c ∈ cs, ∃ c' ∈ cs', c.table.entity = e ∧ c'.table.entity = e := by
    intro e he
    obtain ⟨u, hreads, rfl⟩ := hwf.reads_of_mem_sources ht he
    obtain ⟨view, ρ, hview, hview'⟩ := halike u hreads
    obtain ⟨c, hc, c', hc', hname, _, _, hfilled, -⟩ :=
      exists_filledAlike hwf hnamed h h' hcatalog hview hview'
    have htable : c.table = u := List.inj_on_of_nodup_map hwf.names (h.history.known hc) hreads.1 hname
    exact ⟨c, hc, c', hc', htable ▸ rfl, htable ▸ hfilled.table ▸ rfl⟩
  constructor
  · intro e he
    obtain ⟨c, hc, -, -, hentity, -⟩ := hboth e he
    exact ⟨c, hc, hentity⟩
  · intro e he
    obtain ⟨-, -, c', hc', -, hentity⟩ := hboth e he
    exact ⟨c', hc', hentity⟩

/-- Sources that are viewed alike are bound with things in the same place. -/
theorem bindSources_rel (hcreation : t.creation = some creation) :
    Except.Rel (List.Forall₂ (SourceTable.Renamed (r.state.store.Meets r'.state.store)))
      (creation.approach.sourceTables.mapM (bindSource r.setup.catalog r.state.store))
      (creation.approach.sourceTables.mapM (bindSource r'.setup.catalog r'.state.store)) := by
  have hnames : List.Forall₂ (fun name name' => name ∈ creation.approach.sourceTables ∧ name = name')
      creation.approach.sourceTables creation.approach.sourceTables :=
    List.forall₂_same.2 fun _ hname => ⟨hname, rfl⟩
  refine hnames.mapM ?_
  rintro name _ ⟨hname, rfl⟩
  obtain ⟨u, hu, rfl, hmem⟩ := (hwf.creations t ht creation hcreation).named name hname
  obtain ⟨view, ρ, hview, hview'⟩ := halike u ⟨hu, by rw [Table.sources, hcreation]; exact hmem⟩
  obtain ⟨c, hc, c', hc', hcname, cols, rows, hfilled, hcols⟩ :=
    exists_filledAlike hwf hnamed h h' hcatalog hview hview'
  have htable : c.table = u := List.inj_on_of_nodup_map hwf.names (h.history.known hc) hu hcname
  subst htable
  have hx := h.mem_extents hc
  have hx' := h'.mem_extents hc'
  have hp := (h.history.populates hc).table
  have hp' := (h'.history.populates hc').table
  rw [← hfilled.table] at hp'
  rw [hcatalog, bindSource_eq hwf (h.sound hwf) hu hx hp,
    bindSource_eq hwf (h'.sound (hcatalog ▸ hwf)) hu hx' hp', hfilled.extent, hfilled.extent']
  refine Extent.bind_rel_of_filled hwf hcols (fun e e' hmeets => ?_) _
  rw [← hfilled.extent, ← hfilled.extent'] at hmeets
  exact meets_of_extents h h' hc hc' hfilled.table hmeets

/-- Sources that are viewed alike are bound in both runs, with things in the same place. -/
theorem SourcesAlike.exists_bound (hcreation : t.creation = some creation) :
    ∃ sources sources',
      creation.approach.sourceTables.mapM (bindSource r.setup.catalog r.state.store) = .ok sources ∧
      creation.approach.sourceTables.mapM (bindSource r'.setup.catalog r'.state.store) = .ok sources' ∧
      List.Forall₂ (SourceTable.Renamed (r.state.store.Meets r'.state.store)) sources sources' := by
  obtain ⟨sources, hbound⟩ :=
    h.exists_bound hwf ht hcreation (halike.committed hwf hnamed h h' hcatalog ht).1
  have hrel := bindSources_rel hwf hnamed h h' hcatalog ht halike hcreation
  rw [hbound] at hrel
  obtain ⟨sources', hbound', hsources⟩ := hrel.of_ok
  exact ⟨sources, sources', hbound, hbound', hsources⟩

end

/-- Sources are still viewed alike after the table was asked for in both runs. -/
theorem SourcesAlike.initTable (hwf : r.setup.catalog.WellFormed) (h : r.state.MadeOf r.setup cs)
    (h' : r'.state.MadeOf r'.setup cs') (hcatalog : r'.setup.catalog = r.setup.catalog)
    (hfind : r.setup.catalog.table name = .ok u) (halike : r.SourcesAlike r' t) :
    (r.initTable name).2.SourcesAlike (r'.initTable name).2 t := by
  intro u hreads
  rw [setup_initTable] at hreads
  obtain ⟨view, ρ, hview, hview'⟩ := halike u hreads
  have hfind' : r'.setup.catalog.table name = _ := hcatalog ▸ hfind
  exact ⟨view, ρ, tableView_initTable hwf h hfind hview,
    tableView_initTable (hcatalog ▸ hwf) h' hfind' hview'⟩

end Run

end Provenance
