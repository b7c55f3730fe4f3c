import Provenance.Proofs.Confluence
import Provenance.Proofs.Initialization.Lockstep

/-!
# What a table depends on in the supplied records

Asking a fresh run for a table depends on the supplied records only as far as those of the tables that it is
derived from, directly or not, hold something for the fields of these. Other tables, fields that a table does
not have and the order of fields have no part in it, unless strict columns are asked for; and these can only
make a table fail. Main statement: `Run.Reachable.footprint`.
-/

namespace Provenance

/-- Records that hold the same for all fields of a table. One that is missing is one that holds nothing. -/
def SourceRecord.AgreeOn (columns : List Column) (r r' : SourceRecord) : Prop :=
  ∀ column ∈ columns, (r.lookup column.name).getD .null = (r'.lookup column.name).getD .null

/-- Data that supply a table alike: with as many records, which agree on its fields one by one. -/
def SourceData.SupplyAlike (c : Catalog) (d d' : SourceData) (t : Table) : Prop :=
  List.Forall₂ (SourceRecord.AgreeOn (c.columnsOf t.id)) (d.records t.name) (d'.records t.name)

/-- The setup with other data. -/
def Setup.over (setup : Setup) (data : SourceData) : Setup := { setup with data }

/-- The setup in which records may have more fields than their table. -/
def Setup.lax (setup : Setup) : Setup :=
  { setup with settings := { setup.settings with strictColumns := false } }

variable {setup : Setup} {data : SourceData} {t : Table}

/-! ## Supplied tables -/

namespace Populate

variable {table : Table} {columns : List Column} {r r' : SourceRecord} {n : Nat}

theorem checkFields_lax : checkFields false table columns r = .ok () := by
  unfold checkFields
  split
  · rfl
  · rfl

theorem held_congr {column : Column}
    (h : (r.lookup column.name).getD .null = (r'.lookup column.name).getD .null) :
    held table n r column = held table n r' column := by
  unfold held payload
  rw [h]

theorem supply_congr (h : r.AgreeOn columns r') :
    supply false table columns (r, n) = supply false table columns (r', n) := by
  unfold supply
  rw [checkFields_lax, checkFields_lax, List.mapM_congr fun column hcolumn => held_congr (h column hcolumn)]

theorem mapM_supply_congr {records records' : List SourceRecord}
    (h : List.Forall₂ (SourceRecord.AgreeOn columns) records records') :
    records.zipIdx.mapM (supply false table columns) = records'.zipIdx.mapM (supply false table columns) := by
  have hrel : Except.Rel (List.Forall₂ Eq) (records.zipIdx.mapM (supply false table columns))
      (records'.zipIdx.mapM (supply false table columns)) := by
    refine (h.zipIdx 0).mapM ?_
    rintro ⟨r, n⟩ ⟨r', _⟩ ⟨hagree, rfl⟩
    rw [supply_congr hagree]
    exact .refl
  rw [List.forall₂_eq_eq_eq] at hrel
  exact hrel.eq

end Populate

/-! ## Data that agree where a table is made from -/

/-- A table is staged alike over data that supply it alike. -/
theorem stage_over {store : Store} {p : Populated} (hlax : setup.settings.strictColumns = false) (hp : p.Of t)
    (halike : t.creation = none → setup.data.SupplyAlike setup.catalog data t) :
    stage (setup.over data) store p t = stage setup store p t := by
  unfold stage
  cases hcreation : t.creation with
  | some creation => rfl
  | none =>
    dsimp only
    rw [Populate.draft_eq (hp.database hcreation) hp.table,
      Populate.draft_eq (hp.database hcreation) hp.table]
    unfold Setup.over
    dsimp only
    rw [hlax, Populate.mapM_supply_congr (halike hcreation)]

/-- Initialization takes the same steps over data that supply alike all tables that a table is made from. -/
theorem Initializes.over {root : Table} {path es : List Entity} {s : State} {cs : List Commit} {out : Outcome}
    (hlax : setup.settings.strictColumns = false) (hwf : setup.catalog.WellFormed)
    (halike : ∀ u, Relation.ReflTransGen setup.catalog.Reads root u → u.creation = none →
      setup.data.SupplyAlike setup.catalog data u)
    (h : Initializes setup path es s cs out)
    (hes : ∀ e ∈ es, ∀ t, setup.catalog.tableById? e.id = some t →
      Relation.ReflTransGen setup.catalog.Reads root t) :
    Initializes (setup.over data) path es s cs out := by
  have hsources : ∀ {e : Entity} {t : Table}, setup.catalog.tableById? e.id = some t →
      Relation.ReflTransGen setup.catalog.Reads root t →
      ∀ e ∈ t.sources, ∀ u, setup.catalog.tableById? e.id = some u →
        Relation.ReflTransGen setup.catalog.Reads root u := by
    intro e t hknown hreads e' he' u hu
    obtain ⟨u', hread, rfl⟩ := hwf.reads_of_mem_sources (Catalog.mem_of_tableById? hknown).1 he'
    cases (hwf.tableById?_of_mem hread.1).symm.trans hu
    exact hreads.tail hread
  induction h with
  | done => exact .done
  | present known there next ih =>
    exact .present known there (ih fun e he => hes e (List.mem_cons_of_mem _ he))
  | dangling unknown => exact .dangling unknown
  | failedBefore known new failed => exact .failedBefore known new failed
  | cyclic known new untried under => exact .cyclic known new untried under
  | blocked tries sources ih =>
    have hreads := hes _ List.mem_cons_self _ tries.known
    exact .blocked ⟨tries.known, tries.new, tries.untried, tries.apart⟩ (ih (hsources tries.known hreads))
  | @refused path rest e s s' s'' t cs failure tries sources settled ih =>
    have hreads := hes _ List.mem_cons_self _ tries.known
    have hstage : stage (setup.over data) s'.store (s'.opening t) t = stage setup s'.store (s'.opening t) t :=
      stage_over hlax ⟨rfl, rfl⟩ (halike _ hreads)
    exact .refused ⟨tries.known, tries.new, tries.untried, tries.apart⟩ (ih (hsources tries.known hreads))
      (hstage ▸ settled)
  | @built path rest e s s' s'' t cs cs' d out tries sources staged settled next ihsources ihnext =>
    have hreads := hes _ List.mem_cons_self _ tries.known
    have hstage : stage (setup.over data) s'.store (s'.opening t) t = stage setup s'.store (s'.opening t) t :=
      stage_over hlax ⟨rfl, rfl⟩ (halike _ hreads)
    exact .built ⟨tries.known, tries.new, tries.untried, tries.apart⟩
      (ihsources (hsources tries.known hreads)) (hstage.trans staged) settled
      (ihnext fun e he => hes e (List.mem_cons_of_mem _ he))

/-! ## Strict columns -/

theorem Populate.Fills.lax {strict : Bool} {columns : List Column} {r : SourceRecord} {row : List Scalar}
    (h : Fills strict t columns r row) : Fills false t columns r row :=
  ⟨checkFields_lax, h.2⟩

/-- A table that can be staged with strict columns is staged alike without. -/
theorem stage_lax {store : Store} {p : Populated} {d : Draft} (hp : p.Of t)
    (h : stage setup store p t = .ok d) : stage setup.lax store p t = .ok d := by
  unfold stage at h ⊢
  cases hcreation : t.creation with
  | some creation =>
    rw [hcreation] at h
    exact h
  | none =>
    rw [hcreation] at h
    obtain ⟨rows, hrows, rfl⟩ := (Populate.draft_eq_ok_iff (hp.database hcreation) hp.table).1 h
    exact (Populate.draft_eq_ok_iff (hp.database hcreation) hp.table).2
      ⟨rows, hrows.imp fun _ _ => Populate.Fills.lax, rfl⟩

theorem Derives.lax {x : Extent} (h : Derives setup t x) : Derives setup.lax t x := by
  induction h with
  | intro known sources sound held populates staged ih =>
    exact .intro known ih sound held populates (stage_lax populates staged)

theorem History.lax {cs : List Commit} (h : History setup cs) : History setup.lax cs := by
  induction h with
  | nil => exact .nil
  | snoc h follows ih =>
    exact ih.snoc ⟨follows.known, follows.new, follows.sources, follows.above, follows.after,
      follows.populates, stage_lax follows.populates follows.staged⟩

theorem State.MadeOf.lax {s : State} {cs : List Commit} (h : s.MadeOf setup cs) : s.MadeOf setup.lax cs :=
  ⟨h.history.lax, h.store, h.log, h.above, h.after, h.initialized, h.failures⟩

/-! ## Runs -/

/-- Where nothing was committed the setup does not matter. -/
theorem State.MadeOf.of_nil {s : State} (h : s.MadeOf setup []) : s.MadeOf (setup.over data) [] :=
  ⟨.nil, h.store, h.log, h.above, h.after, h.initialized, h.failures⟩

namespace Run

variable {r r' : Run} {name : String} {cs cs' : List Commit}

/-- A reachable run in which nothing is materialized and nothing failed. -/
structure Fresh (r : Run) : Prop where
  reachable : r.Reachable
  initialized : r.state.initialized = []
  failures : r.state.failures = []

theorem Fresh.madeOf (h : r.Fresh) : r.setup.catalog.WellFormed ∧ r.state.MadeOf r.setup [] := by
  obtain ⟨hwf, cs, hmade⟩ := h.reachable.exists_madeOf
  refine ⟨hwf, ?_⟩
  cases cs with
  | nil => exact hmade
  | cons c cs =>
    have hthere := (hmade.isInitialized_iff hwf (hmade.history.known List.mem_cons_self)).2
      ⟨c, List.mem_cons_self, rfl⟩
    unfold State.isInitialized at hthere
    rw [h.initialized] at hthere
    cases hthere

/-- Asking for a table materializes it in both runs, with the same view and lineage up to a renaming. -/
def MaterializeAlike (r r' : Run) (name : String) : Prop :=
  (r.initTable name).1 = .ok () ∧ (r'.initTable name).1 = .ok () ∧ ∃ view ρ,
    (r.initTable name).2.tableView name = .ok view ∧
    (r'.initTable name).2.tableView name = .ok (view.rename ρ) ∧
    Carries ρ (r.initTable name).2 (r'.initTable name).2

theorem Carries.congr {r₁ : Run} {ρ : Id → Id} (h : Carries ρ r r')
    (hcatalog : r₁.setup.catalog = r.setup.catalog) (hstate : r₁.state = r.state) : Carries ρ r₁ r' := by
  have hview : r₁.tableView = r.tableView := by
    funext name
    unfold tableView
    rw [hcatalog, hstate]
  have hshared : r₁.shared r' = r.shared r' := by
    unfold shared
    rw [hcatalog, hstate, hview]
  exact ⟨hcatalog ▸ h.definitions, hshared ▸ h.apart, hview ▸ h.views, hview ▸ hstate ▸ h.edges⟩

/-- A table is materialized alike in two runs over one catalog, if what asking for it leaves behind in the first
could have been left behind with the setup of the second. -/
theorem materializeAlike_of_madeOf (hwf : r'.setup.catalog.WellFormed) (hmade' : r'.state.MadeOf r'.setup cs')
    (hcatalog : r.setup.catalog = r'.setup.catalog) (hmade : (r.initTable name).2.state.MadeOf r'.setup cs)
    (hcommitted : ∃ c ∈ cs, c.table = t) (hfind : r'.setup.catalog.table name = .ok t)
    (hok : (r.initTable name).1 = .ok ()) (hok' : (r'.initTable name).1 = .ok ()) :
    r.MaterializeAlike r' name := by
  obtain ⟨c, hc, rfl⟩ := hcommitted
  obtain ⟨-, rfl⟩ := Catalog.mem_of_table hfind
  obtain ⟨hsetup', ds', hmade', c', hc', htable⟩ := committed_of_initTable hwf hmade' hfind hok'
  -- The first run as it would be with the setup of the second.
  let a : Run := ⟨r'.setup, (r.initTable c.table.name).2.state⟩
  obtain ⟨ρ, hρ⟩ := exists_carries (r := a) hwf hmade hmade' hsetup'
  have hview : a.tableView c.table.name = .ok (c.draft.extent.view r'.setup.catalog c.table.name) :=
    tableView_of_committed hwf hmade hc
  have hview' := tableView_of_committed (hsetup' ▸ hwf) (hsetup' ▸ hmade') hc'
  rw [htable] at hview'
  have hcatalog' : (r.initTable c.table.name).2.setup.catalog = a.setup.catalog := by
    rw [setup_initTable]
    exact hcatalog
  refine ⟨hok, hok', c.draft.extent.view r'.setup.catalog c.table.name, ρ, ?_, ?_,
    hρ.congr hcatalog' rfl⟩
  · unfold tableView at hview ⊢
    rwa [hcatalog']
  · rw [hview', hρ.views _ _ _ hview hview']

/-- Asking a fresh run for a table takes the same steps over data that supply alike all tables that it is made
from. -/
theorem Fresh.initTable_over (h : r.Fresh) (hlax : r.setup.settings.strictColumns = false)
    (hfind : r.setup.catalog.table name = .ok t)
    (halike : ∀ u, Relation.ReflTransGen r.setup.catalog.Reads t u → u.creation = none →
      r.setup.data.SupplyAlike r.setup.catalog data u) :
    let r₁ : Run := ⟨r.setup.over data, r.state⟩
    (r₁.initTable name).1 = (r.initTable name).1 ∧
      (r₁.initTable name).2.state = (r.initTable name).2.state := by
  intro r₁
  obtain ⟨hwf, hmade⟩ := h.madeOf
  have hwf₁ : r₁.setup.catalog.WellFormed := hwf
  have hmade₁ : r₁.state.MadeOf r₁.setup [] := hmade.of_nil
  have hfind₁ : r₁.setup.catalog.table name = .ok t := hfind
  obtain ⟨cs, hout⟩ := initializes_of_initTable r.setup t r.state
  have hout₁ := hout.over hlax hwf halike fun e he u hu => by
    rw [List.mem_singleton.1 he] at hu
    cases (hwf.tableById?_of_mem (Catalog.mem_of_table hfind).1).symm.trans hu
    exact .refl
  have hsame : Provenance.initTable r₁.setup (r₁.setup.catalog.tables.length + 1) [] t.entity r₁.state =
      Provenance.initTable r.setup (r.setup.catalog.tables.length + 1) [] t.entity r.state :=
    hout₁.initTable_eq
  rw [initTable_of_table? hwf hmade (Catalog.table?_of_table hfind),
    initTable_of_table? hwf₁ hmade₁ (Catalog.table?_of_table hfind₁), step, step, hsame]
  exact ⟨rfl, rfl⟩

/-- What asking for a table depends on. In fresh runs without strict columns the result is the same for data
that supply alike all tables that it is made from, a missing field being one that holds nothing: the same error,
or the same view and lineage up to a renaming. And a table that is materialized with strict columns is
materialized alike without. -/
theorem Reachable.footprint (h : r.Reachable) (hfind : r.setup.catalog.table name = .ok t) :
    (r.Fresh → r.setup.settings.strictColumns = false →
      ∀ r' : Run, ∀ data, r'.Fresh → r'.setup = r.setup.over data →
        (∀ u, Relation.ReflTransGen r.setup.catalog.Reads t u → u.creation = none →
          r.setup.data.SupplyAlike r.setup.catalog data u) →
        (∃ e, (r.initTable name).1 = .error e ∧ (r'.initTable name).1 = .error e) ∨
          r.MaterializeAlike r' name) ∧
    ∀ r' : Run, r'.Reachable → r'.setup = r.setup.lax → (r.initTable name).1 = .ok () →
      r.MaterializeAlike r' name := by
  constructor
  · intro hfresh hlax r' data hfresh' hsetup halike
    let r₁ : Run := ⟨r.setup.over data, r.state⟩
    obtain ⟨hresult, hstate⟩ := hfresh.initTable_over hlax hfind halike
    obtain ⟨hwf, hmade⟩ := hfresh.madeOf
    obtain ⟨hwf', hmade'⟩ := hfresh'.madeOf
    have hwf₁ : r₁.setup.catalog.WellFormed := hwf
    have hmade₁ : r₁.state.MadeOf r₁.setup [] := hmade.of_nil
    have hsetup₁ : r'.setup = r₁.setup := hsetup
    have halike' : Remember r₁.state [] r'.state [] := ⟨rfl, hfresh'.failures.trans hfresh.failures.symm⟩
    have hresult' :=
      (initTable_alike hwf₁ hmade₁ (hsetup₁ ▸ hmade') hsetup₁ halike' name).trans hresult
    cases hr : (r.initTable name).1 with
    | error e => exact .inl ⟨e, rfl, hresult'.trans hr⟩
    | ok =>
      right
      obtain ⟨-, cs, hleft, hcommitted⟩ :=
        committed_of_initTable hwf₁ hmade₁ hfind (hresult.trans hr)
      rw [hstate] at hleft
      refine materializeAlike_of_madeOf hwf' hmade' (congrArg Setup.catalog hsetup).symm ?_ hcommitted ?_ hr
        (hresult'.trans hr)
      · rwa [hsetup]
      · rwa [hsetup]
  · intro r' h' hsetup hok
    obtain ⟨hwf, cs, hmade⟩ := h.exists_madeOf
    obtain ⟨hwf', cs', hmade'⟩ := h'.exists_madeOf
    have hfind' : r'.setup.catalog.table name = .ok t := hsetup ▸ hfind
    obtain ⟨x, hx⟩ := (h.initTable_eq_ok_iff hfind).1 hok
    have hok' : (r'.initTable name).1 = .ok () := (h'.initTable_eq_ok_iff hfind').2 ⟨x, hsetup ▸ hx.lax⟩
    obtain ⟨-, ds, hleft, hcommitted⟩ := committed_of_initTable hwf hmade hfind hok
    exact materializeAlike_of_madeOf hwf' hmade' (congrArg Setup.catalog hsetup).symm (hsetup ▸ hleft.lax)
      hcommitted hfind' hok hok'

end Run

namespace Sample

/-- Three sales, one of them without a region. -/
def unplaced : SourceData :=
  ⟨[("sale", [[("amount", .int 3), ("region", .text "north")], [("amount", .int 5), ("region", .text "north")],
    [("amount", .int 7), ("region", .null)]])]⟩

/-- The same sales with a field that they do not have, beside records of no table of the schema. -/
def padded : SourceData :=
  ⟨[("refund", [[("amount", .int 1)]]),
    ("sale", [[("amount", .int 3), ("note", .text "paid"), ("region", .text "north")],
      [("amount", .int 5), ("region", .text "north")], [("amount", .int 7)]])]⟩

/-- A run over some data, with or without strict columns. -/
def runOver (strict : Bool) (data : SourceData) : Run :=
  Engine.start ⟨catalog, ⟨none, .abort, strict, true⟩, .empty⟩ 10 .epoch "run" [] data

theorem fresh_runOver (strict : Bool) (data : SourceData) : (runOver strict data).Fresh :=
  have hcompiled : schema.compile 0 = .ok catalog := rfl
  ⟨.start hcompiled (by decide), rfl, rfl⟩

/-- The only table of records is supplied alike by both data. -/
theorem supplyAlike_padded {u : Table} (hu : u ∈ catalog.tables) (hsupplied : u.creation = none) :
    unplaced.SupplyAlike catalog padded u := by
  have hsale : u = .database ⟨1⟩ "sale" := by
    rcases List.mem_cons.1 hu with rfl | hu
    · rfl
    rcases List.mem_cons.1 hu with rfl | hu
    · cases hsupplied
    · cases List.mem_singleton.1 hu
      cases hsupplied
  subst hsale
  have hagree : ∀ r r' : SourceRecord, (r.lookup "region").getD .null = (r'.lookup "region").getD .null →
      (r.lookup "amount").getD .null = (r'.lookup "amount").getD .null →
      r.AgreeOn (catalog.columnsOf ⟨1⟩) r' := by
    intro r r' hregion hamount column hcolumn
    rcases List.mem_cons.1 hcolumn with rfl | hcolumn
    · exact hregion
    · cases List.mem_singleton.1 hcolumn
      exact hamount
  exact .cons (hagree _ _ rfl rfl) (.cons (hagree _ _ rfl rfl) (.cons (hagree _ _ rfl rfl) .nil))

/-- The totals are the same over both data, and with strict columns, unless these refuse a field. -/
theorem footprint_total :
    (runOver false unplaced).MaterializeAlike (runOver false padded) "total" ∧
      (runOver true unplaced).MaterializeAlike (runOver false unplaced) "total" ∧
      ((runOver true padded).initTable "total").1 = .error (.unresolvedColumn ⟨"sale", "note"⟩) := by
  have htotal : ∀ strict data, (runOver strict data).setup.catalog.table "total" =
      .ok ⟨⟨2⟩, "total", some total⟩ := fun _ _ => rfl
  have hok : ((runOver false unplaced).initTable "total").1 = .ok () := rfl
  obtain ⟨hfresh, -⟩ := Run.Reachable.footprint (fresh_runOver false unplaced).reachable (htotal _ _)
  obtain ⟨-, hstrict⟩ := Run.Reachable.footprint (fresh_runOver true unplaced).reachable (htotal _ _)
  have halike : ∀ u, Relation.ReflTransGen catalog.Reads ⟨⟨2⟩, "total", some total⟩ u → u.creation = none →
      unplaced.SupplyAlike catalog padded u := by
    intro u hreads hsupplied
    rcases hreads.cases_tail with rfl | ⟨_, -, hread⟩
    · cases hsupplied
    · exact supplyAlike_padded hread.1 hsupplied
  refine ⟨?_, hstrict _ (fresh_runOver false unplaced).reachable rfl rfl, rfl⟩
  rcases hfresh (fresh_runOver _ _) rfl (runOver false padded) padded (fresh_runOver _ _) rfl halike with
    ⟨e, herror, -⟩ | hsame
  · cases hok.symm.trans herror
  · exact hsame

end Sample

end Provenance
