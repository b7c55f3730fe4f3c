import Provenance.Proofs.Grid
import Provenance.Proofs.Initialization.Check

/-!
# The sources of a table that is tried

When a table is materialized its sources are there, so all of them are bound (`State.MadeOf.exists_bound`).
What is bound holds a cell for each of its columns in every row (`State.MadeOf.coherent`). So a derived table
whose check passes fails only in computing, and its check fails alike over the columns that its sources are
viewed with (`State.MadeOf.stage_of_check`, `State.MadeOf.check_of_stage`).
-/

namespace Provenance

variable {setup : Setup} {s : State} {cs : List Commit} {c : Commit} {t : Table} {creation : Creation}
  {names : List String} {sources : List SourceTable} {p : Populated}

/-- What is committed is bound under different names of columns. -/
theorem Commit.FilledWith.nodup_names {rows : List (List Scalar)} (hwf : setup.catalog.WellFormed)
    (hnamed : setup.catalog.Named) (follows : c.Follows setup cs) (h : c.FilledWith setup names rows) :
    names.Nodup := by
  obtain ⟨columns, cells, hlaid⟩ := follows.exists_laid
  have hcolumns : c.draft.extent.columns = columns.map Column.id := congrArg Extent.columns hlaid.extent
  have hnames := mapM_columnName hwf fun col hcol =>
    (Catalog.mem_columnsOf.1 (hlaid.declared.subset hcol)).1
  rw [← hcolumns, h.columns] at hnames
  cases hnames
  exact (hnamed.single c.table follows.known).sublist (hlaid.declared.map Column.name)

theorem SourceTable.cell?_isSome_filled {name column : String} {rows : List (List Scalar)} {r : SourceRow}
    (hnames : names.Nodup) (hwidth : ∀ row ∈ rows, row.length = names.length)
    (hr : r ∈ (filled p name names rows).rows) (hcolumn : column ∈ names) : (r.cell? column).isSome := by
  obtain ⟨row, hrow, rfl⟩ := List.mem_map.1 hr
  have hlength := hwidth row.1 (List.fst_mem_of_mem_zipIdx hrow)
  obtain ⟨k, hk, hplace⟩ := List.mem_iff_getElem.1 hcolumn
  obtain ⟨payload, hpayload⟩ : ∃ payload, row.1[k]? = some payload :=
    ⟨_, List.getElem?_eq_getElem (hlength ▸ hk)⟩
  rw [SourceRow.cell?_filled hnames hlength (by rw [List.getElem?_eq_getElem hk, hplace]) hpayload]
  rfl

theorem name_mem_of_bound {store : Store} {catalog : Catalog}
    (hbound : names.mapM (bindSource catalog store) = .ok sources) : ∀ x ∈ sources, x.name ∈ names := by
  intro x hx
  obtain ⟨name, hname, hbind⟩ := (List.mapM_eq_ok_iff.1 hbound).exists_of_mem_right hx
  obtain ⟨u, hu, hbind⟩ := Except.bind_eq_ok_iff.1 hbind
  rw [SourceTable.name_of_bind hbind, (Catalog.mem_of_table hu).2]
  exact hname

namespace State.MadeOf

variable (hwf : setup.catalog.WellFormed) (h : s.MadeOf setup cs)
include hwf h

/-- What is bound was committed. -/
theorem exists_filled {name : String} {x : SourceTable}
    (hbind : bindSource setup.catalog s.store name = .ok x) :
    ∃ c ∈ cs, c.table.name = name ∧ ∃ columns rows, c.FilledWith setup columns rows ∧
      x = .filled c.draft.extent.populated name columns rows := by
  obtain ⟨u, hfind, hfound⟩ := Except.bind_eq_ok_iff.1 hbind
  obtain ⟨hu, rfl⟩ := Catalog.mem_of_table hfind
  unfold SourceTable.bind at hfound
  split at hfound
  · cases hfound
  · next p hp =>
    obtain ⟨hp, htable⟩ := Store.of_last?_eq_some hp
    obtain ⟨extent, hextent, rfl⟩ := List.mem_map.1 hp
    obtain ⟨c, hc, rfl⟩ := h.exists_of_mem_extents hextent
    have hid : c.table.id = u.id := (h.history.populates hc).table.symm.trans (of_decide_eq_true htable)
    cases hwf.table_eq (h.history.known hc) hu hid
    obtain ⟨columns, rows, hfilled⟩ := h.history.exists_filledWith hwf hc
    have hsource := h.history.bindSource_eq hwf hc hfilled
    rw [← h.store, hbind] at hsource
    exact ⟨c, hc, rfl, columns, rows, hfilled, Except.ok.inj hsource⟩

theorem coherent (hnamed : setup.catalog.Named)
    (hbound : names.mapM (bindSource setup.catalog s.store) = .ok sources) : Coherent sources where
  complete := by
    intro x hx r hr column hcolumn
    obtain ⟨name, -, hbind⟩ := (List.mapM_eq_ok_iff.1 hbound).exists_of_mem_right hx
    obtain ⟨c, hc, rfl, columns, rows, hfilled, rfl⟩ := h.exists_filled hwf hbind
    obtain ⟨_, _, -, follows⟩ := h.history.exists_follows hc
    exact SourceTable.cell?_isSome_filled (hfilled.nodup_names hwf hnamed follows) hfilled.width hr hcolumn
  single := by
    intro x hx x' hx' hname
    obtain ⟨name, -, hbind⟩ := (List.mapM_eq_ok_iff.1 hbound).exists_of_mem_right hx
    obtain ⟨name', -, hbind'⟩ := (List.mapM_eq_ok_iff.1 hbound).exists_of_mem_right hx'
    have heq : x.name = name := by
      obtain ⟨_, _, rfl, _, _, -, rfl⟩ := h.exists_filled hwf hbind
      rfl
    have heq' : x'.name = name' := by
      obtain ⟨_, _, rfl, _, _, -, rfl⟩ := h.exists_filled hwf hbind'
      rfl
    rw [← heq] at hbind
    rw [← heq', ← hname, hbind] at hbind'
    exact Except.ok.inj hbind'

/-- All sources of a table are bound once they are committed. -/
theorem exists_bound (ht : t ∈ setup.catalog.tables) (hcreation : t.creation = some creation)
    (hsources : ∀ e ∈ t.sources, ∃ c ∈ cs, c.table.entity = e) :
    ∃ sources, creation.approach.sourceTables.mapM (bindSource setup.catalog s.store) = .ok sources := by
  have hbind : ∀ name ∈ creation.approach.sourceTables,
      ∃ x, bindSource setup.catalog s.store name = .ok x := by
    intro name hname
    obtain ⟨u, hu, rfl, hmem⟩ := (hwf.creations t ht creation hcreation).named name hname
    have hsource : u.entity ∈ t.sources := by
      unfold Table.sources
      rw [hcreation]
      exact hmem
    obtain ⟨c, hc, hentity⟩ := hsources _ hsource
    cases hwf.table_eq (h.history.known hc) hu (congrArg Entity.id hentity)
    obtain ⟨columns, rows, hfilled⟩ := h.history.exists_filledWith hwf hc
    have hbind := h.history.bindSource_eq hwf hc hfilled
    rw [← h.store] at hbind
    exact ⟨_, hbind⟩
  obtain ⟨sources, hbound⟩ := List.exists_forall₂ hbind
  exact ⟨sources, List.mapM_eq_ok_iff.2 hbound⟩

end State.MadeOf

theorem stage_of_bound {store : Store} (hcreation : t.creation = some creation)
    (hbound : creation.approach.sourceTables.mapM (bindSource setup.catalog store) = .ok sources) :
    stage setup store p t = Derive.draft setup p t creation sources := by
  unfold stage
  rw [hcreation]
  dsimp only
  rw [hbound]
  rfl

namespace State.MadeOf

variable (hwf : setup.catalog.WellFormed) (hnamed : setup.catalog.Named) (h : s.MadeOf setup cs)
include hwf hnamed h

section

variable (hbound : creation.approach.sourceTables.mapM (bindSource setup.catalog s.store) = .ok sources)
include hbound

theorem checked {plan : List ColumnPlan}
    (hcheck : Derive.check setup.catalog setup.settings.policy t creation sources = .ok plan) :
    Derive.Checked setup t creation sources plan :=
  ⟨h.coherent hwf hnamed hbound, name_mem_of_bound hbound, hcheck⟩

variable (hcreation : t.creation = some creation)
include hcreation

/-- A table whose check fails is not materialized. -/
theorem stage_of_check {e : Error}
    (hcheck : Derive.check setup.catalog setup.settings.policy t creation sources = .error e) :
    stage setup s.store p t = .error e := by
  rw [stage_of_bound hcreation hbound]
  exact Derive.draft_of_check (h.coherent hwf hnamed hbound) hcheck

/-- A table fails as its check does, or in computing. -/
theorem check_of_stage {e : Error} (hp : p.Of t) (hstage : stage setup s.store p t = .error e) :
    Derive.check setup.catalog setup.settings.policy t creation sources = .error e ∨
      setup.functions.Incurs e := by
  cases hcheck : Derive.check setup.catalog setup.settings.policy t creation sources with
  | error e' =>
    cases (h.stage_of_check hwf hnamed hbound hcreation hcheck).symm.trans hstage
    exact .inl rfl
  | ok plan =>
    right
    rw [stage_of_bound hcreation hbound] at hstage
    exact Derive.failsOnly_draft (h.checked hwf hnamed hbound hcheck) (hp.derived hcreation)
      hp.table e hstage

end

/-- A table whose sources are there fails only over definitions and records, or in computing. -/
theorem failsOnly_stage (ht : t ∈ setup.catalog.tables)
    (hsources : ∀ e ∈ t.sources, ∃ c ∈ cs, c.table.entity = e) (hp : p.Of t) :
    (stage setup s.store p t).FailsOnly fun e => e.Definitional ∨ setup.functions.Raises e := by
  intro e hstage
  cases hcreation : t.creation with
  | none =>
    unfold stage at hstage
    rw [hcreation] at hstage
    exact .inl (Populate.failsOnly_draft hwf ht hcreation (hp.database hcreation) hp.table e hstage)
  | some creation =>
    obtain ⟨sources, hbound⟩ := h.exists_bound hwf ht hcreation hsources
    rcases h.check_of_stage hwf hnamed hbound hcreation hp hstage with hcheck | he | he
    · exact .inl (Derive.failsOnly_check hwf ht hcreation e hcheck)
    · exact .inl (.inl he)
    · exact .inr he

end State.MadeOf

/-- A table whose sources are there is refused over definitions and records, or in computing. -/
theorem Initializes.cases_of_refused {path : List Entity} {e : Entity} {before : List Commit} {s' s'' : State}
    {failure : Error} (hwf : setup.catalog.WellFormed) (hnamed : setup.catalog.Named)
    (tries : Tries setup path e s t)
    (sources : Initializes setup (path ++ [t.entity]) t.sources s cs (.ok (), s')) (hs : s.MadeOf setup before)
    (settled : settle setup t (stage setup s'.store (s'.opening t) t) s' = (.error failure, s'')) :
    failure.Definitional ∨ setup.functions.Raises failure := by
  have ht := (Catalog.mem_of_tableById? tries.known).1
  obtain ⟨hstage, -⟩ := sources.stage_of_refused hwf tries hs settled
  have hcommitted : ∀ e ∈ t.sources, ∃ c ∈ before ++ cs, c.table.entity = e := by
    intro e he
    obtain ⟨t', hreads, rfl⟩ := hwf.reads_of_mem_sources ht he
    obtain ⟨c, hc, rfl⟩ := sources.exists_source hwf hs hreads
    exact ⟨c, hc, rfl⟩
  have hmade := (sources.madeOf_and_committed hwf hs).1
  exact hmade.failsOnly_stage hwf hnamed ht hcommitted ⟨rfl, rfl⟩ failure hstage

end Provenance
