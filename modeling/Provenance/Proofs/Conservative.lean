import Provenance.Proofs.Confluence
import Provenance.Proofs.Initialization.Lockstep
import Provenance.Proofs.Initialization.Transferred
import Provenance.Proofs.Speculative.Policies

/-!
# Adding definitions is conservative

A schema may get further tables, derived tables and hierarchies, anywhere in the document. A table that could
be materialized in a run that begins can be materialized then as well, with the same columns, rows and
payloads, and with the same lineage up to a renaming, unless it, or a table that it is derived from, names a
column of a cube that was added (`Schema.ExtendedBy.conservative`).
-/

namespace Provenance

variable {ρ : Id → Id} {n n' : Nat}

/-! ## Views -/

theorem RowView.ofSource_renamed {E : Entity → Entity → Prop} {r r' : SourceRow} (h : r.Renamed E r')
    (hE : ∀ e e', E e e' → e' = e.rename ρ) (number : Nat) :
    ofSource number r' = (ofSource number r).rename ρ := by
  have hcells : r.cells.map (fun cell => (⟨cell.1, cell.2.value.rename ρ, cell.2.payload⟩ : CellView)) =
      r'.cells.map fun cell => ⟨cell.1, cell.2.value, cell.2.payload⟩ :=
    h.cells.map_eq fun cell cell' ⟨hname, hvalue, hpayload⟩ => by rw [hname, hE _ _ hvalue, hpayload]
  unfold ofSource rename
  rw [← hcells, hE _ _ h.row, List.map_map]
  rfl

/-- The view of a table that was committed differs from that of its image by the renaming. -/
theorem State.Transferred.view_eq {setup setup' : Setup} {s s' : State} {before before' : List Commit}
    {x x' : Commit} (hsetup : setup.ExtendedBy setup') (hρ : Id.Transfers setup.catalog setup'.catalog n n' ρ)
    (h : s.Transferred ρ setup.catalog setup'.catalog n n' before s' before') (hs : s.MadeOf setup before)
    (hx : x ∈ before) (htransferred : x.Transferred ρ setup.catalog setup'.catalog x') (name : String) :
    x'.draft.extent.view setup'.catalog name = (x.draft.extent.view setup.catalog name).rename ρ := by
  obtain ⟨names, rows, hfilled⟩ := hs.history.exists_filledWith hsetup.catalog.wellFormed hx
  obtain ⟨_, hgrounded⟩ := hs.history.grounded hsetup.catalog.wellFormed hx
  have hmoves := h.next_of_mem hρ hx htransferred
  have hfilled' := hfilled.transferred hsetup htransferred hgrounded.columns hmoves
  have hpopulated := htransferred.draft.extent.populated
  have hrow := SourceRow.renamed_filled hpopulated.origin hmoves (Nat.le_of_lt (h.above x hx)) names
  have hview := (congrArg (Extent.view setup.catalog · name) hfilled.extent).trans
    (Extent.view_filled hfilled.columns)
  have hview' := (congrArg (Extent.view setup'.catalog · name) hfilled'.extent).trans
    (Extent.view_filled hfilled'.columns)
  rw [hview, hview', hpopulated.entity, TableView.rename, List.map_map]
  congr 1
  exact List.map_congr_left fun row _ => RowView.ofSource_renamed (hrow row) (fun _ _ he => he.1) row.2

/-! ## Runs -/

namespace Run

variable {r r' : Run} {cs cs' : List Commit} {t : Table}

theorem initTable_ok_of_materialize {name : String} {view : TableView} (h : (r.materialize name).1 = .ok view) :
    (r.initTable name).1 = .ok () := by
  cases hresult : (r.initTable name).1 with
  | ok => rfl
  | error => cases h.symm.trans (materialize_of_error hresult)

section

variable (hsetup : r.setup.ExtendedBy r'.setup) (hρ : Id.Transfers r.setup.catalog r'.setup.catalog n n' ρ)
  (hmade : r.state.MadeOf r.setup cs) (hmade' : r'.state.MadeOf r'.setup cs')
  (h : r.state.Transferred ρ r.setup.catalog r'.setup.catalog n n' cs r'.state cs')
  (ht : t ∈ r.setup.catalog.tables) (hcubes : r.setup.catalog.AgreeBelow r'.setup.catalog t)
include hsetup hρ hmade hmade' h ht hcubes

/-- A table that can be initialized in a run can be initialized in one where more is defined. -/
theorem initTable_transferred (hok : (r.initTable t.name).1 = .ok ()) :
    (r'.initTable t.name).1 = .ok () ∧ ∃ ds ds', (r.initTable t.name).2.state.MadeOf r.setup ds ∧
      (r'.initTable t.name).2.state.MadeOf r'.setup ds' ∧ (r.initTable t.name).2.state.Transferred ρ
        r.setup.catalog r'.setup.catalog n n' ds (r'.initTable t.name).2.state ds' ∧ ∃ x ∈ ds, x.table = t := by
  have hwf := hsetup.catalog.wellFormed
  have hwf' := hsetup.catalog.wellFormed'
  obtain ⟨t', himage⟩ := hρ.exists_image hsetup.catalog ht
  obtain ⟨ds, hrun⟩ := initializes_of_initTable r.setup t r.state
  have hinit := initTable_of_table? hwf hmade (hwf.table?_eq_some_iff.2 ⟨ht, rfl⟩)
  have hinit' := initTable_of_table? hwf' hmade' (hwf'.table?_eq_some_iff.2 ⟨himage.known, himage.name⟩)
  rw [hinit] at hok ⊢
  obtain ⟨ds', out', hrun', hok', htransferred⟩ := hrun.transfer hsetup hρ hmade hmade' h
    (fun _ he => absurd he List.not_mem_nil) (fun e he => ⟨t, ht, (List.mem_singleton.1 he).symm, hcubes⟩) hok
  rw [List.map_nil, List.map_singleton, ← himage.entity] at hrun'
  rw [hinit', step, hrun'.initTable_eq]
  obtain ⟨hmade₁, hcommitted⟩ := hrun.madeOf_and_committed hwf hmade
  obtain ⟨u, hknown, hthere⟩ := hcommitted hok _ (List.mem_singleton_self _)
  cases (hwf.tableById?_of_mem ht).symm.trans hknown
  exact ⟨hok', _, _, hmade₁, (hrun'.madeOf_and_committed hwf' hmade').1, htransferred, hthere⟩

/-- A table that can be materialized in a run can be materialized in one where more is defined. -/
theorem materialize_transferred {view : TableView} (hview : (r.materialize t.name).1 = .ok view) :
    (r'.materialize t.name).1 = .ok (view.rename ρ) ∧
      (r.materialize t.name).2.state.store.Image ρ (r'.materialize t.name).2.state.store ∧
      (r'.materialize t.name).2.state.log.edges =
        (r.materialize t.name).2.state.log.edges.map (Edge.rename ρ) := by
  have hok := initTable_ok_of_materialize hview
  obtain ⟨hok', ds, ds', hmade₁, hmade₁', htransferred, x, hx, rfl⟩ :=
    initTable_transferred hsetup hρ hmade hmade' h ht hcubes hok
  obtain ⟨x', hx', hxx'⟩ := htransferred.commits.exists_of_mem_left hx
  obtain ⟨hgiven, hafter⟩ := materialize_of_ok hok
  obtain ⟨hgiven', hafter'⟩ := materialize_of_ok hok'
  rw [hafter, hafter']
  refine ⟨?_, htransferred.store hmade₁ hmade₁', htransferred.edges hmade₁ hmade₁'⟩
  have hkept := setup_initTable r x.table.name
  have hkept' := setup_initTable r' x.table.name
  have hthere := tableView_of_committed (hkept ▸ hsetup.catalog.wellFormed) (hkept ▸ hmade₁) hx
  have hthere' := tableView_of_committed (hkept' ▸ hsetup.catalog.wellFormed') (hkept' ▸ hmade₁') hx'
  rw [hkept, ← hgiven, hview] at hthere
  rw [hxx'.table.name, hkept', ← hgiven'] at hthere'
  cases hthere
  rw [hthere', htransferred.view_eq hsetup hρ hmade₁ hx hxx']

end

end Run

/-! ## Schemas -/

theorem Schema.isSome_table?_iff {s : Schema} {first : Nat} {c : Catalog} {name : String}
    (compiled : s.compile first = .ok c) : (c.table? name).isSome ↔ name ∈ s.tableNames := by
  rw [← @isSome_tableEntity?_iff _ first,
    (compiled_of_compile compiled).tableEntity?_eq (wellFormed_of_compile compiled), Catalog.tableNamed?,
    Option.isSome_map]

/-- A table that names no column of a cube that is added, and is derived from none that does, can be
materialized over a schema with more definitions if it can be over the schema itself: in runs that begin, over
the same records and with the same settings, it has the same columns, rows and payloads then, and what is
materialized with it and the edges are the same up to a renaming. The renaming takes definitions to those of
the same names, and no two identities of the first run to one. -/
theorem Schema.ExtendedBy.conservative {s s' : Schema} {first first' firstId firstId' : Nat} {c c' : Catalog}
    (h : s.ExtendedBy s') (compiled : s.compile first = .ok c) (compiled' : s'.compile first' = .ok c')
    (ids : s.nextId first ≤ firstId) (ids' : s'.nextId first' ≤ firstId') (settings : Settings)
    (functions : Functions) (now now' : Timestamp) (name name' : String)
    (context context' : List (String × Json)) (data : SourceData) :
    let r := Engine.start ⟨c, settings, functions⟩ firstId now name context data
    let r' := Engine.start ⟨c', settings, functions⟩ firstId' now' name' context' data
    ∃ ρ : Id → Id, Id.Transfers c c' firstId firstId' ρ ∧ ∀ t ∈ c.tables,
      (∀ u, Relation.ReflTransGen c.Reads t u → ∀ cube ∈ c.cubeColumnsOf u, ¬s.Adds s' cube.cube) →
      ∀ view, (r.materialize t.name).1 = .ok view →
        (r'.materialize t.name).1 = .ok (view.rename ρ) ∧
          (r.materialize t.name).2.state.store.Image ρ (r'.materialize t.name).2.state.store ∧
          (r'.materialize t.name).2.state.log.edges =
            (r.materialize t.name).2.state.log.edges.map (Edge.rename ρ) := by
  intro r r'
  have hcatalog := h.catalog compiled compiled'
  have hbelow : ∀ e ∈ c.entities, e.id.number < firstId := fun e he =>
    Nat.lt_of_lt_of_le (id_lt_of_compile compiled he) ids
  have hbelow' : ∀ e ∈ c'.entities, e.id.number < firstId' := fun e he =>
    Nat.lt_of_lt_of_le (id_lt_of_compile compiled' he) ids'
  obtain ⟨ρ, hρ⟩ := Id.exists_transfers hcatalog hbelow hbelow'
  refine ⟨ρ, hρ, fun t ht hcubes view hview => ?_⟩
  have hsetup : r.setup.ExtendedBy r'.setup := ⟨hcatalog, rfl, rfl, rfl⟩
  have hmade : r.state.MadeOf r.setup [] := .start fun e he => Nat.lt_succ_of_lt (hbelow e he)
  have hmade' : r'.state.MadeOf r'.setup [] := .start fun e he => Nat.lt_succ_of_lt (hbelow' e he)
  have hstart : r.state.Transferred ρ c c' firstId firstId' [] r'.state [] :=
    ⟨.nil, fun _ hx => absurd hx List.not_mem_nil, (hρ.next 0).symm, ⟨0, rfl, rfl⟩, rfl⟩
  have hagree : c.AgreeBelow c' t := by
    intro u hu cube hcube
    refine hcatalog.hasColumn_eq fun hnew => (isSome_table?_iff compiled).2 ?_
    by_contra hold
    exact hcubes u hu cube hcube ⟨(isSome_table?_iff compiled').1 hnew, hold⟩
  exact Run.materialize_transferred hsetup hρ hmade hmade' hstart ht hagree hview

namespace Sample

/-- The sales and their quotes, with branches, a hierarchy of their cities, and a table that is derived from the
quotes. -/
def widened : Schema :=
  { quoted with
    tables := ⟨"branch", [⟨"city", .text⟩]⟩ :: quoted.tables
    hierarchies := [⟨"place", [⟨"Norway", "Oslo"⟩]⟩]
    derived := ⟨"copy", none, .enrichment "quote", []⟩ :: quoted.derived }

/-- The quotes, which lack the rate that no cube gives, are the same in the wider schema. -/
theorem conservative_quote :
    ∃ (c : Catalog) (ρ : Id → Id) (view : TableView), widened.compile 4 = .ok c ∧
      ((quotedStart .skip).materialize "quote").1 = .ok view ∧ view.columns = ["amount"] ∧
      ((Engine.start ⟨c, ⟨none, .skip, true, true⟩, .standard⟩ 30 .epoch "run" []
        (quotedStart .skip).setup.data).materialize "quote").1 = .ok (view.rename ρ) := by
  have hextended : quoted.ExtendedBy widened :=
    ⟨List.sublist_cons_self _ _, List.sublist_cons_self _ _, List.nil_sublist _⟩
  have hcompiled : quoted.compile 0 = .ok quotedCatalog := rfl
  obtain ⟨c, hcompiled'⟩ : ∃ c, widened.compile 4 = .ok c := ⟨_, rfl⟩
  have hfirst : quoted.nextId 0 ≤ 10 := by decide
  have hfirst' : widened.nextId 4 ≤ 30 := by decide
  obtain ⟨ρ, -, hconservative⟩ := hextended.conservative hcompiled hcompiled' hfirst hfirst'
    ⟨none, .skip, true, true⟩ .standard .epoch .epoch "run" "run" [] [] (quotedStart .skip).setup.data
  have hquote : ⟨⟨2⟩, "quote", some quote⟩ ∈ quotedCatalog.tables := List.mem_cons_of_mem _ List.mem_cons_self
  have hrate : ∀ u ∈ quotedCatalog.tables, ∀ cube ∈ quotedCatalog.cubeColumnsOf u, cube.cube = "fx" := by decide
  have hview : ∃ view, ((quotedStart .skip).materialize "quote").1 = .ok view ∧ view.columns = ["amount"] :=
    ⟨_, rfl, rfl⟩
  obtain ⟨view, hview, hcolumns⟩ := hview
  refine ⟨c, ρ, view, hcompiled', hview, hcolumns,
    (hconservative _ hquote (fun u hu cube hcube => ?_) view hview).1⟩
  have hknown : u ∈ quotedCatalog.tables := by
    rcases hu.cases_tail with rfl | ⟨_, -, hreads⟩
    · exact hquote
    · exact hreads.1
  rw [hrate u hknown cube hcube, Schema.Adds]
  decide

end Sample

end Provenance
