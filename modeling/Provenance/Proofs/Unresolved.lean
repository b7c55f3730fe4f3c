import Provenance.Proofs.Confluence
import Provenance.Proofs.Initialization.Sources

/-!
# Unresolved columns

Whether a derived table fails because a column of its sources is missing, or a speculative column of the
schema, does not depend on any row: its definition is checked over the columns of its sources first
(`Derive.check`), and where the check passes no such error comes up later. Main statement:
`Run.Reachable.unresolved`. The check includes that of every step of a join, whose left columns have to be of
tables that are joined before it (`Sample.unresolved_sold`).
-/

namespace Provenance

theorem Error.not_unresolved_of_computational {e : Error} (h : e.Computational) : ¬e.Unresolved := by
  cases e with
  | unknownTable | unknownFunction | unknownHierarchy | mismatch | overflow | divisionByZero | invalid =>
    exact id
  | unresolvedColumn | unresolvedSpeculative | cyclic | duplicateEdge | invalidOwner | invalidTarget
  | dangling | incompleteLineage | violation | failedBefore | inaccessible => cases h

/-- If an error is that a column is unresolved then some function raises it. -/
def Functions.Resolve (fs : Functions) (e : Error) : Prop := e.Unresolved → fs.Raises e

theorem Functions.resolve_of_incurs {fs : Functions} {e : Error} (h : fs.Incurs e) : fs.Resolve e := by
  intro hunresolved
  rcases h with h | h
  · exact absurd hunresolved (Error.not_unresolved_of_computational h)
  · exact h

theorem Functions.not_raises_standard {e : Error} (h : e.Unresolved) : ¬standard.Raises e := fun hraises =>
  Error.not_unresolved_of_computational (computational_of_raises_standard hraises) h

/-! ## Tables whose sources are there -/

theorem State.Same.trans {s s' s'' : State} (h : s.Same s') (h' : s'.Same s'') : s.Same s'' :=
  ⟨h.store.trans h'.store, h.log.trans h'.log, h.initialized.trans h'.initialized,
    h.failures.trans h'.failures, h.nextId.trans h'.nextId⟩

/-- Asking for tables that are there changes nothing. -/
theorem Initializes.same_of_initialized {setup : Setup} {path es : List Entity} {s : State}
    {cs : List Commit} {out : Outcome} (h : Initializes setup path es s cs out)
    (hes : ∀ e ∈ es, ∃ t, setup.catalog.tableById? e.id = some t ∧ s.isInitialized t.id = true) :
    out.1 = .ok () ∧ out.2.Same s := by
  have hthere : ∀ {e : Entity} {rest : List Entity} {s : State} {t : Table},
      (∀ e' ∈ e :: rest, ∃ t, setup.catalog.tableById? e'.id = some t ∧ s.isInitialized t.id = true) →
      setup.catalog.tableById? e.id = some t → s.isInitialized t.id = true := by
    intro e rest s t hes hknown
    obtain ⟨t', hknown', hthere⟩ := hes e List.mem_cons_self
    cases hknown.symm.trans hknown'
    exact hthere
  induction h with
  | done => exact ⟨rfl, .rfl⟩
  | present known there next ih =>
    obtain ⟨hok, hsame⟩ := ih fun e he => hes e (List.mem_cons_of_mem _ he)
    exact ⟨hok, hsame.trans .skip⟩
  | dangling unknown =>
    obtain ⟨t, hknown, -⟩ := hes _ List.mem_cons_self
    cases unknown.symm.trans hknown
  | failedBefore known new | cyclic known new => cases new.symm.trans (hthere hes known)
  | blocked tries | refused tries | built tries => cases tries.new.symm.trans (hthere hes tries.known)

namespace Run

variable {r r' : Run} {cs : List Commit} {t : Table} {creation : Creation} {names : List String}
  {heads sources : List SourceTable}

/-- The tables with some names as they are materialized, without their rows. -/
def headers (r : Run) (names : List String) : Except Error (List SourceTable) :=
  names.mapM fun name => do
    let view ← r.tableView name
    pure ⟨view.table, view.columns, []⟩

/-- A table is neither materialized yet, nor has it failed. -/
structure Pending (r : Run) (t : Table) : Prop where
  known : t ∈ r.setup.catalog.tables
  new : r.state.isInitialized t.id = false
  untried : r.state.failureOf? t.id = none

/-- A table is viewed with the columns that it is bound with. -/
theorem header_of_tableView {name : String} {view : TableView} {x : SourceTable}
    (hview : r.tableView name = .ok view)
    (hbind : bindSource r.setup.catalog r.state.store name = .ok x) :
    x.header = ⟨view.table, view.columns, []⟩ := by
  obtain ⟨u, hu, hview⟩ := Except.bind_eq_ok_iff.1 hview
  obtain ⟨u', hu', hbind⟩ := Except.bind_eq_ok_iff.1 hbind
  cases hu.symm.trans hu'
  unfold SourceTable.bind at hbind
  cases hp : r.state.store.populatedFor? u.id with
  | none =>
    simp only [hp] at hview
    cases hview
  | some p =>
    simp only [hp] at hview hbind
    obtain ⟨columns, hcolumns, hbind⟩ := Except.bind_eq_ok_iff.1 hbind
    obtain ⟨rows, -, hbind⟩ := Except.bind_eq_ok_iff.1 hbind
    cases hview
    cases hbind
    rw [TableView.namedColumns_eq hcolumns,
      List.map_snd_zip (Nat.le_of_eq (List.mapM_eq_ok_iff.1 hcolumns).length_eq.symm)]
    rfl

section

variable (hwf : r.setup.catalog.WellFormed) (hmade : r.state.MadeOf r.setup cs)
  (ht : t ∈ r.setup.catalog.tables) (hcreation : t.creation = some creation)
  (hheaders : r.headers creation.approach.sourceTables = .ok heads)
include hwf hmade ht hcreation hheaders

/-- Tables that can be viewed are committed. -/
theorem committed_of_headers : ∀ e ∈ t.sources, ∃ c ∈ cs, c.table.entity = e := by
  intro e he
  unfold Table.sources at he
  rw [hcreation] at he
  obtain ⟨u, hu, rfl, hname⟩ := (hwf.creations t ht creation hcreation).tables e he
  obtain ⟨_, -, hview⟩ := (List.mapM_eq_ok_iff.1 hheaders).exists_of_mem_left hname
  obtain ⟨view, hview, -⟩ := Except.bind_eq_ok_iff.1 hview
  obtain ⟨c, hc, hcname, -⟩ := exists_of_tableView hwf hmade hview
  have heq : c.table = u := List.inj_on_of_nodup_map hwf.names (hmade.history.known hc) hu hcname
  exact ⟨c, hc, congrArg Table.entity heq⟩

theorem exists_bound_of_headers :
    ∃ sources, creation.approach.sourceTables.mapM (bindSource r.setup.catalog r.state.store) = .ok sources ∧
      sources.map SourceTable.header = heads := by
  obtain ⟨sources, hbound⟩ :=
    hmade.exists_bound hwf ht hcreation (committed_of_headers hwf hmade ht hcreation hheaders)
  refine ⟨sources, hbound, ?_⟩
  have hviews := List.mapM_eq_ok_iff.1 hheaders
  have hbinds := List.mapM_eq_ok_iff.1 hbound
  rw [← List.map_id heads]
  apply List.Forall₂.map_eq (R := fun x header => x.header = header) _ fun _ _ heq => heq
  apply List.forall₂_of_getElem? (hbinds.length_eq.symm.trans hviews.length_eq)
  intro n x header hx hheader
  obtain ⟨name, hname, hbind⟩ := hbinds.exists_of_getElem?_right hx
  obtain ⟨name', hname', hview⟩ := hviews.exists_of_getElem?_right hheader
  cases hname.symm.trans hname'
  obtain ⟨view, hshown, hheader⟩ := Except.bind_eq_ok_iff.1 hview
  cases hheader
  exact header_of_tableView hshown hbind

end

/-- A pending table whose sources are there is staged over the store as it is. -/
theorem exists_stage_of_pending (hwf : r.setup.catalog.WellFormed) (hmade : r.state.MadeOf r.setup cs)
    (hpending : r.Pending t) (hsources : ∀ e ∈ t.sources, ∃ c ∈ cs, c.table.entity = e) :
    ∃ p, p.Of t ∧
      ((∃ d, stage r.setup r.state.store p t = .ok d ∧ (r.initTable t.name).1 = .ok ()) ∨
        ∃ e, stage r.setup r.state.store p t = .error e ∧ (r.initTable t.name).1 = .error e) := by
  have hknown := hwf.tableById?_of_mem hpending.known
  obtain ⟨cs', out, hout, hresult, -⟩ :=
    initializes_of_table hwf hmade (hwf.table_of_mem hpending.known)
  have hthere : ∀ e ∈ t.sources,
      ∃ u, r.setup.catalog.tableById? e.id = some u ∧ r.state.isInitialized u.id = true := by
    intro e he
    obtain ⟨c, hc, rfl⟩ := hsources e he
    have hu := hmade.history.known hc
    exact ⟨c.table, hwf.tableById?_of_mem hu, (hmade.isInitialized_iff hwf hu).2 ⟨c, hc, rfl⟩⟩
  rw [hresult]
  cases hout with
  | present known there =>
    cases known.symm.trans hknown
    cases hpending.new.symm.trans there
  | dangling unknown => cases unknown.symm.trans hknown
  | failedBefore known _ failed =>
    cases known.symm.trans hknown
    cases hpending.untried.symm.trans failed
  | cyclic _ _ _ under => cases under
  | blocked tries sources =>
    cases tries.known.symm.trans hknown
    cases (sources.same_of_initialized hthere).1
  | @refused _ _ _ _ s' s'' t' _ failure tries sources settled =>
    cases tries.known.symm.trans hknown
    obtain ⟨hstage, rfl⟩ := Initializes.stage_of_refused hwf tries sources hmade settled
    rw [(sources.same_of_initialized hthere).2.store] at hstage
    exact ⟨s'.opening t, ⟨rfl, rfl⟩, .inr ⟨failure, hstage, rfl⟩⟩
  | @built _ _ _ _ s' s'' t' _ _ d _ tries sources staged settled next =>
    cases tries.known.symm.trans hknown
    cases next
    rw [(sources.same_of_initialized hthere).2.store] at staged
    exact ⟨s'.opening t, ⟨rfl, rfl⟩, .inl ⟨d, staged, rfl⟩⟩

/-- A pending table fails as its check over the columns of its sources does. -/
theorem initTable_of_check (hwf : r.setup.catalog.WellFormed) (hnamed : r.setup.catalog.Named)
    (hmade : r.state.MadeOf r.setup cs) (hpending : r.Pending t) (hcreation : t.creation = some creation)
    (hheaders : r.headers creation.approach.sourceTables = .ok heads) {e : Error}
    (hcheck : Derive.check r.setup.catalog r.setup.settings.policy t creation heads = .error e) :
    (r.initTable t.name).1 = .error e := by
  obtain ⟨sources, hbound, rfl⟩ := exists_bound_of_headers hwf hmade hpending.known hcreation hheaders
  rw [Derive.check_headers] at hcheck
  obtain ⟨p, hp, ⟨d, hstage, -⟩ | ⟨e', hstage, hresult⟩⟩ := exists_stage_of_pending hwf hmade hpending
    (committed_of_headers hwf hmade hpending.known hcreation hheaders)
  · cases (hmade.stage_of_check hwf hnamed hbound hcreation hcheck).symm.trans hstage
  · cases (hmade.stage_of_check hwf hnamed hbound hcreation hcheck).symm.trans hstage
    exact hresult

/-- A pending table fails with an unresolved column only if its check does, or a function. -/
theorem check_of_initTable (hwf : r.setup.catalog.WellFormed) (hnamed : r.setup.catalog.Named)
    (hmade : r.state.MadeOf r.setup cs) (hpending : r.Pending t) (hcreation : t.creation = some creation)
    (hheaders : r.headers creation.approach.sourceTables = .ok heads) {e : Error}
    (hunresolved : e.Unresolved) (herror : (r.initTable t.name).1 = .error e) :
    Derive.check r.setup.catalog r.setup.settings.policy t creation heads = .error e ∨
      r.setup.functions.Raises e := by
  obtain ⟨sources, hbound, rfl⟩ := exists_bound_of_headers hwf hmade hpending.known hcreation hheaders
  rw [Derive.check_headers]
  obtain ⟨p, hp, ⟨d, -, hresult⟩ | ⟨e', hstage, hresult⟩⟩ := exists_stage_of_pending hwf hmade hpending
    (committed_of_headers hwf hmade hpending.known hcreation hheaders)
  · cases hresult.symm.trans herror
  · cases hresult.symm.trans herror
    apply (hmade.check_of_stage hwf hnamed hbound hcreation hp hstage).imp_right
    intro hincurs
    exact Functions.resolve_of_incurs hincurs hunresolved

/-- Whether a table whose sources are there fails over an unresolved column is decided by its definition, the
schema, the policy and the columns of the sources. Where this check passes, neither making the rows nor
computing a planned column in any of them meets such an error, unless a registered function raises it; the
standard ones do not. -/
theorem Reachable.unresolved (h : r.Reachable) (hpending : r.Pending t)
    (hcreation : t.creation = some creation)
    (hheaders : r.headers creation.approach.sourceTables = .ok heads) :
    (∀ e, Derive.check r.setup.catalog r.setup.settings.policy t creation heads = .error e →
      (r.initTable t.name).1 = .error e) ∧
    (∀ e, e.Unresolved → (r.initTable t.name).1 = .error e →
      Derive.check r.setup.catalog r.setup.settings.policy t creation heads = .error e ∨
        r.setup.functions.Raises e) ∧
    (∀ r' : Run, r'.Reachable → r'.setup.catalog = r.setup.catalog →
      r'.setup.settings.policy = r.setup.settings.policy → r'.Pending t →
      r'.headers creation.approach.sourceTables = .ok heads →
      ∀ e, e.Unresolved → (r.initTable t.name).1 = .error e →
        (r'.initTable t.name).1 = .error e ∨ r.setup.functions.Raises e) ∧
    (∀ plan, Derive.check r.setup.catalog r.setup.settings.policy t creation heads = .ok plan →
      ∃ sources,
        creation.approach.sourceTables.mapM (bindSource r.setup.catalog r.state.store) = .ok sources ∧
        (creation.approach.createRows r.setup.catalog r.setup.functions sources).FailsOnly
          r.setup.functions.Resolve ∧
        ∀ frames, creation.approach.createRows r.setup.catalog r.setup.functions sources = .ok frames →
          ∀ frame ∈ frames, ∀ col e, .compute col e ∈ plan →
            (e.evaluate r.setup.catalog r.setup.functions frame.scope).FailsOnly
              r.setup.functions.Resolve) ∧
    ∀ e, e.Unresolved → ¬Functions.standard.Raises e := by
  obtain ⟨hwf, cs, hmade⟩ := h.exists_madeOf
  obtain ⟨schema, first, compiled⟩ := h.exists_compile
  have hnamed := Schema.named_of_compile compiled
  refine ⟨fun e => initTable_of_check hwf hnamed hmade hpending hcreation hheaders,
    fun e => check_of_initTable hwf hnamed hmade hpending hcreation hheaders,
    fun r' h' hcatalog hpolicy hpending' hheaders' e hunresolved herror => ?_, fun plan hcheck => ?_,
    fun e => Functions.not_raises_standard⟩
  · obtain ⟨hwf', cs', hmade'⟩ := h'.exists_madeOf
    apply (check_of_initTable hwf hnamed hmade hpending hcreation hheaders hunresolved herror).imp_left
    intro hcheck
    rw [← hcatalog, ← hpolicy] at hcheck
    exact initTable_of_check hwf' (hcatalog.symm ▸ hnamed) hmade' hpending' hcreation hheaders' hcheck
  · obtain ⟨sources, hbound, rfl⟩ := exists_bound_of_headers hwf hmade hpending.known hcreation hheaders
    rw [Derive.check_headers] at hcheck
    have hchecked := hmade.checked hwf hnamed hbound hcheck
    refine ⟨sources, hbound, hchecked.failsOnly_createRows.mono fun _ => Functions.resolve_of_incurs,
      fun frames hframes frame hframe col e hplanned => ?_⟩
    exact (hchecked.failsOnly_evaluate hframes hframe hplanned).mono fun _ => Functions.resolve_of_incurs

end Run

namespace Sample

/-- The totals are checked over the columns of the sales, and meet no unresolved column then. -/
theorem unresolved_total :
    let r := run.after (.materialize "sale")
    ∃ plan, Derive.check r.setup.catalog r.setup.settings.policy ⟨⟨2⟩, "total", some total⟩ total
        [⟨"sale", ["region", "amount"], []⟩] = .ok plan ∧
      ∀ e, e.Unresolved → (r.initTable "total").1 ≠ .error e := by
  intro r
  have hreachable : r.Reachable := .call reachable_run _
  have hpending : r.Pending ⟨⟨2⟩, "total", some total⟩ :=
    ⟨List.mem_cons_of_mem _ List.mem_cons_self, rfl, rfl⟩
  have hheaders : r.headers total.approach.sourceTables = .ok [⟨"sale", ["region", "amount"], []⟩] := rfl
  obtain ⟨-, hfails, -⟩ := Run.Reachable.unresolved hreachable hpending rfl hheaders
  refine ⟨_, rfl, fun e hunresolved herror => ?_⟩
  rcases hfails e hunresolved herror with hcheck | ⟨entry, hentry, -⟩
  · cases hcheck
  · cases hentry

/-- Shops are joined to sales by the code of their country, but the countries are joined only after them. -/
def trade : Schema where
  name := "trade"
  tables := [⟨"sale", [⟨"shop", .text⟩]⟩, ⟨"shop", [⟨"country", .text⟩]⟩, ⟨"country", [⟨"code", .text⟩]⟩]
  hierarchies := []
  derived := [⟨"sold", none, .join "sale" [⟨"shop", .inner, [⟨⟨"country", "code"⟩, "country"⟩]⟩,
    ⟨"country", .inner, [⟨⟨"shop", "country"⟩, "code"⟩]⟩], []⟩]

def sold : Creation where
  id := ⟨5⟩
  approach := .join "sale" [⟨"shop", .inner, [⟨⟨"country", "code"⟩, "country"⟩]⟩,
    ⟨"country", .inner, [⟨⟨"shop", "country"⟩, "code"⟩]⟩]
  sourceTables := [⟨.databaseTable, ⟨1⟩⟩, ⟨.databaseTable, ⟨2⟩⟩, ⟨.databaseTable, ⟨3⟩⟩]
  sourceColumns := [⟨.databaseField, ⟨8⟩⟩, ⟨.databaseField, ⟨7⟩⟩]

def tradeCatalog : Catalog where
  id := ⟨0⟩
  name := "trade"
  fingerprint := trade.fingerprint
  tables := [.database ⟨1⟩ "sale", .database ⟨2⟩ "shop", .database ⟨3⟩ "country", ⟨⟨4⟩, "sold", some sold⟩]
  columns := trade.compileColumns 0
  hierarchies := []

/-- A run without any records. -/
def tradeStart : Run :=
  Engine.start ⟨tradeCatalog, ⟨none, .abort, true, true⟩, .standard⟩ 10 .epoch "run" [] ⟨[]⟩

/-- All sources of the join are materialized. -/
def tradeRun : Run :=
  ((tradeStart.after (.materialize "sale")).after (.materialize "shop")).after (.materialize "country")

theorem reachable_tradeRun : tradeRun.Reachable := by
  have hcompiled : trade.compile 0 = .ok tradeCatalog := rfl
  have hstart : tradeStart.Reachable := .start hcompiled (by decide)
  exact .call (.call (.call hstart _) _) _

/-- Planning and the check of the columns pass, and yet the join tells of an unresolved column. -/
theorem unresolved_sold :
    ∃ t creation sources, tradeRun.setup.catalog.table "sold" = .ok t ∧ t.creation = some creation ∧
      creation.approach.sourceTables.mapM (bindSource tradeRun.setup.catalog tradeRun.state.store) =
        .ok sources ∧
      Plan.checkFilter tradeRun.setup.catalog sources creation.approach = .ok () ∧
      Plan.columns tradeRun.setup.catalog tradeRun.setup.settings.policy sources t.name
        (tradeRun.setup.catalog.columnsOf t.id) = .ok [] ∧
      creation.approach.checkColumns sources = .ok () ∧
      creation.approach.createRows tradeRun.setup.catalog tradeRun.setup.functions sources =
        .error (.unresolvedColumn ⟨"country", "code"⟩) ∧
      tradeRun.Reachable ∧
      (tradeRun.initTable "sold").1 = .error (.unresolvedColumn ⟨"country", "code"⟩) :=
  ⟨_, _, _, rfl, rfl, rfl, rfl, rfl, rfl, rfl, reachable_tradeRun, rfl⟩

end Sample

end Provenance
