import Provenance.Proofs.Initialization.Tracking

/-!
# Bookkeeping

What a run remembers of tables is spread over several memories: the stack of the tables under way, what is
initialized, which tables failed and why, and the records of failures. They are written at different places
of a recursion that is left early whenever something fails. Between calls they agree with each other and with
the store (`Tracked.Kept`). Main statement: `Run.Reachable.bookkeeping`.
-/

namespace Provenance

/-- The memories of a run agree with each other and with what is in the store. -/
structure Tracked.Kept (m : Tracked) : Prop where
  /-- No table is under way. -/
  idle : m.underWay = []
  /-- Exactly the tables in the store are initialized, with their creations and the columns that hold
  values. -/
  initialized : ∀ id, m.state.isInitialized id = true ↔
    ∃ p ∈ m.state.store.populated, ∃ t ∈ m.setup.catalog.tables, p.table = t.id ∧
      (id ∈ t.ids ∨ id ∈ m.state.store.columnsOf p.id)
  /-- A column is initialized with its table, unless the policy leaves it out. -/
  columns : ∀ t ∈ m.setup.catalog.tables, ∀ col ∈ m.setup.catalog.columnsOf t.id,
    m.state.isInitialized col.id = true ↔
      m.state.isInitialized t.id = true ∧ ¬Plan.Omits m.setup.catalog m.setup.settings.policy col
  /-- The reasons of failures are those in the records. -/
  failed : ∀ id reason, m.failed id = some reason ↔
    ∃ f ∈ m.state.failures, f.entity.id = id ∧ f.message = reason
  once : (m.state.failures.map fun f => f.entity.id).Nodup
  /-- A table that failed is neither initialized nor in the store. -/
  apart : ∀ f ∈ m.state.failures, ∃ t ∈ m.setup.catalog.tables, f.entity = t.entity ∧ f.table = t.name ∧
    m.state.isInitialized t.id = false ∧ ∀ p ∈ m.state.store.populated, p.table ≠ t.id
  sources : ∀ t ∈ m.setup.catalog.tables, m.state.isInitialized t.id = true →
    ∀ e ∈ t.sources, m.state.isInitialized e.id = true

/-- A commit holds values in the columns of its table that the policy does not leave out. -/
theorem Commit.Follows.mem_columns_iff {setup : Setup} {cs : List Commit} {c : Commit} {col : Column}
    (hwf : setup.catalog.WellFormed) (follows : c.Follows setup cs)
    (hcol : col ∈ setup.catalog.columnsOf c.table.id) :
    col.id ∈ c.draft.extent.columns ↔ ¬Plan.Omits setup.catalog setup.settings.policy col := by
  rcases follows.cases_of_staged with ⟨rows, h⟩ | ⟨creation, sources, plan, frames, rows, h⟩
  · have hcolumns : c.draft.extent.columns = (setup.catalog.columnsOf c.table.id).map Column.id :=
      congrArg (fun d => d.extent.columns) h.draft
    have hsupplied := hwf.expr?_isSome follows.known hcol
    rw [h.supplied] at hsupplied
    refine iff_of_true (hcolumns ▸ List.mem_map_of_mem hcol) fun ⟨_, e, he, _⟩ => ?_
    rw [he] at hsupplied
    cases hsupplied
  · have hcolumns : c.draft.extent.columns = (plan.map ColumnPlan.column).map Column.id := by
      rw [List.map_map]
      exact congrArg Extent.columns h.extent_eq
    rw [hcolumns, ← Plan.mem_columns_iff h.planned hcol]
    constructor
    · intro hmem
      obtain ⟨col', hcol', hid⟩ := List.mem_map.1 hmem
      have hknown := (Plan.sublist_of_columns h.planned).subset hcol'
      have heq : col' = col := List.inj_on_of_nodup_map hwf.nodup_columnIds
        (Catalog.mem_columnsOf.1 hknown).1 (Catalog.mem_columnsOf.1 hcol).1 hid
      exact heq ▸ hcol'
    · exact List.mem_map_of_mem

namespace State.MadeOf

variable {setup : Setup} {s : State} {cs : List Commit} {c : Commit} {t : Table}
  (hwf : setup.catalog.WellFormed) (h : s.MadeOf setup cs)
include hwf h

theorem exists_of_mem_populated {p : Populated} (hp : p ∈ s.store.populated) :
    ∃ c ∈ cs, p.table = c.table.id ∧ s.store.columnsOf p.id = c.draft.extent.columns := by
  obtain ⟨x, hx, rfl⟩ := List.mem_map.1 hp
  obtain ⟨c, hc, rfl⟩ := h.exists_of_mem_extents hx
  exact ⟨c, hc, (h.history.populates hc).table, (h.sound hwf).columnsOf_of_mem hx⟩

/-- What is initialized belongs to a table in the store. -/
theorem initialized_iff (id : Id) : s.isInitialized id = true ↔
    ∃ p ∈ s.store.populated, ∃ t ∈ setup.catalog.tables, p.table = t.id ∧
      (id ∈ t.ids ∨ id ∈ s.store.columnsOf p.id) := by
  rw [h.initialized]
  constructor
  · intro ⟨c, hc, hid⟩
    have hx := h.mem_extents hc
    rw [← (h.sound hwf).columnsOf_of_mem hx] at hid
    exact ⟨_, List.mem_map_of_mem hx, c.table, h.history.known hc, (h.history.populates hc).table, hid⟩
  · intro ⟨p, hp, t, ht, htable, hid⟩
    obtain ⟨c, hc, htable', hcolumns⟩ := h.exists_of_mem_populated hwf hp
    rw [hcolumns] at hid
    cases hwf.table_eq ht (h.history.known hc) (htable.symm.trans htable')
    exact ⟨c, hc, hid⟩

/-- A column is initialized with its table, unless the policy leaves it out. -/
theorem isInitialized_column_iff_not_omits {col : Column} (ht : t ∈ setup.catalog.tables)
    (hcol : col ∈ setup.catalog.columnsOf t.id) : s.isInitialized col.id = true ↔
      s.isInitialized t.id = true ∧ ¬Plan.Omits setup.catalog setup.settings.policy col := by
  have hcommit : ∀ {c}, c ∈ cs → c.table = t →
      (col.id ∈ c.draft.extent.columns ↔ ¬Plan.Omits setup.catalog setup.settings.policy col) := by
    intro c hc heq
    obtain ⟨_, _, -, follows⟩ := h.history.exists_follows hc
    exact follows.mem_columns_iff hwf (heq.symm ▸ hcol)
  rw [h.isInitialized_iff hwf ht, h.isInitialized_column_iff hwf ht hcol]
  constructor
  · intro ⟨c, hc, heq, hid⟩
    exact ⟨⟨c, hc, heq⟩, (hcommit hc heq).1 hid⟩
  · intro ⟨⟨c, hc, heq⟩, hkept⟩
    exact ⟨c, hc, heq, (hcommit hc heq).2 hkept⟩

theorem sources_initialized (ht : t ∈ setup.catalog.tables) (hinit : s.isInitialized t.id = true) :
    ∀ e ∈ t.sources, s.isInitialized e.id = true := by
  intro e he
  obtain ⟨c, hc, rfl⟩ := (h.isInitialized_iff hwf ht).1 hinit
  obtain ⟨before, after, rfl, follows⟩ := h.history.exists_follows hc
  obtain ⟨c', hc', rfl⟩ := follows.sources e he
  have hc' : c' ∈ before ++ c :: after := List.mem_append_left _ hc'
  exact (h.isInitialized_iff hwf (h.history.known hc')).2 ⟨c', hc', rfl⟩

end State.MadeOf

/-- Between calls the memories of a tracked run agree. -/
theorem Tracked.Reachable.kept {m : Tracked} (h : m.Reachable) : m.Kept := by
  obtain ⟨hreachable, htracked, hrecorded⟩ := h.eq_tracked
  obtain ⟨hwf, cs, hmade⟩ := hreachable.exists_madeOf
  have hfailed : m.failed = fun id => (m.state.failureOf? id).map Failure.message :=
    congrArg Tracked.failed htracked
  refine ⟨congrArg Tracked.underWay htracked, hmade.initialized_iff hwf,
    fun t ht col hcol => hmade.isInitialized_column_iff_not_omits hwf ht hcol, ?_, hrecorded.once, ?_,
    fun t ht => hmade.sources_initialized hwf ht⟩
  · intro id reason
    rw [hfailed, Option.map_eq_some_iff]
    refine exists_congr fun f => ?_
    rw [State.failureOf?, List.find?_key_eq_some_iff hrecorded.once, and_assoc]
  · intro f hf
    obtain ⟨t, ht, hentity, hname, hnew⟩ := hmade.failures f hf
    refine ⟨t, ht, hentity, hname, ?_, fun p hp htable => ?_⟩
    · rw [← Bool.not_eq_true, hmade.isInitialized_iff hwf ht]
      exact fun ⟨c, hc, heq⟩ => hnew c hc heq
    · obtain ⟨c, hc, htable', -⟩ := hmade.exists_of_mem_populated hwf hp
      exact hnew c hc (hwf.table_eq (hmade.history.known hc) ht (htable'.symm.trans htable))

/-- Every reachable run can be tracked. Whichever way a tracked run came about, it does what the run does, and
between calls its stack is empty and its memories agree with each other and with the store. -/
theorem Run.Reachable.bookkeeping {r : Run} (h : r.Reachable) :
    (∃ m : Tracked, m.Reachable ∧ m.toRun = r) ∧
      ∀ m : Tracked, m.Reachable → m.toRun = r →
        m.Kept ∧ ∀ call, (m.after call).toRun = r.after call := by
  refine ⟨Tracked.exists_reachable h, fun m hm heq => ⟨hm.kept, fun call => ?_⟩⟩
  rw [← heq]
  exact hm.toRun_after call

namespace Sample

/-- After the totals and the table that is derived from itself, the former are initialized with the sales, and
the latter is remembered as failed. -/
theorem bookkeeping_loop :
    let r := (run.after (.execute "total")).after (.execute "loop")
    ∃ m : Tracked, m.toRun = r ∧ m.underWay = [] ∧ r.state.isInitialized ⟨1⟩ = true ∧
      r.state.isInitialized ⟨2⟩ = true ∧ r.state.isInitialized ⟨3⟩ = false ∧
      ∃ reason, m.failed ⟨3⟩ = some reason := by
  intro r
  have hreachable : r.Reachable := .call (.call reachable_run _) _
  obtain ⟨⟨m, hm, heq⟩, hkept⟩ := Run.Reachable.bookkeeping hreachable
  obtain ⟨hkept, -⟩ := hkept m hm heq
  have hfailure : ∃ f ∈ r.state.failures, f.entity.id = ⟨3⟩ := ⟨_, List.mem_cons_self, rfl⟩
  obtain ⟨f, hf, hid⟩ := hfailure
  have hstate : m.state = r.state := congrArg Run.state heq
  exact ⟨m, heq, hkept.idle, rfl, rfl, rfl, f.message,
    (hkept.failed ⟨3⟩ _).2 ⟨f, hstate ▸ hf, hid, rfl⟩⟩

end Sample

end Provenance
