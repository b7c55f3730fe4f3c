import Provenance.Proofs.Catalog.Compiled
import Provenance.Proofs.Initialization.Consistent
import Provenance.Run

/-!
# Reachable runs

A run is reachable if an engine with a compiled schema started it and it was then asked for things, in any
order and any number of times (`Run.Reachable`). Each call is a run of initialization through the table that
it is for (`Run.exists_initializes`), so the state of a reachable run is consistent
(`Run.Reachable.exists_consistent`).
-/

namespace Provenance

namespace Run

/-- What a run can be asked for. -/
inductive Call where
  | init (e : Entity)
  | initTable (name : String)
  | materialize (name : String)
  | execute (target : String)

/-- The run after a call, whatever the call gave. -/
def after (r : Run) : Call → Run
  | .init e => (r.init e).2
  | .initTable name => (r.initTable name).2
  | .materialize name => (r.materialize name).2
  | .execute target => (r.execute target).2

/-- The table that a call is for. -/
def Call.table? (c : Catalog) : Call → Option Table
  | .init e => c.tableOf? e
  | .initTable name | .materialize name | .execute name => c.table? name

/-- Runs that come about from an engine with a compiled schema. Identities of the run come after those of
the catalog. -/
inductive Reachable : Run → Prop
  | start {schema : Schema} {first firstId : Nat} {engine : Engine} {now : Timestamp} {name : String}
      {context : List (String × Json)} {data : SourceData}
      (compiled : schema.compile first = .ok engine.catalog) (ids : schema.nextId first ≤ firstId) :
      Reachable (engine.start firstId now name context data)
  | call {r : Run} (h : Reachable r) (call : Call) : Reachable (r.after call)
  | reset {r : Run} (h : Reachable r) : Reachable r.reset
  /-- Time passes. -/
  | wait {r : Run} (h : Reachable r) (now : Timestamp) :
      Reachable { r with state := { r.state with now } }

end Run

namespace Sample

/-- Sales, their total in every region, and a table that is derived from itself. -/
def schema : Schema where
  name := "shop"
  tables := [⟨"sale", [⟨"region", .text⟩, ⟨"amount", .integer⟩]⟩]
  hierarchies := []
  derived := [
    ⟨"total", none, .group "sale" [⟨"sale", "region"⟩],
      [⟨"region", none, "", .column ⟨"sale", "region"⟩⟩,
        ⟨"amount", none, "", .aggregate .sum (.column ⟨"sale", "amount"⟩)⟩]⟩,
    ⟨"loop", none, .enrichment "loop", []⟩]

def total : Creation :=
  ⟨⟨4⟩, .group "sale" [⟨"sale", "region"⟩], [⟨.databaseTable, ⟨1⟩⟩], [⟨.databaseField, ⟨6⟩⟩]⟩

def loop : Creation := ⟨⟨5⟩, .enrichment "loop", [⟨.derivedTable, ⟨3⟩⟩], []⟩

def catalog : Catalog where
  id := ⟨0⟩
  name := "shop"
  fingerprint := schema.fingerprint
  tables := [.database ⟨1⟩ "sale", ⟨⟨2⟩, "total", some total⟩, ⟨⟨3⟩, "loop", some loop⟩]
  columns := schema.compileColumns 0
  hierarchies := []

/-- Two sales in the north. -/
def data : SourceData :=
  ⟨[("sale", [[("region", .text "north"), ("amount", .int 3)],
    [("region", .text "north"), ("amount", .int 5)]])]⟩

def run : Run :=
  Engine.start ⟨catalog, ⟨none, .abort, true, true⟩, .empty⟩ 10 .epoch "run" [] data

theorem reachable_run : run.Reachable :=
  have hcompiled : schema.compile 0 = .ok catalog := rfl
  .start hcompiled (by decide)

end Sample

section

variable {setup : Setup} {s : State} {cs : List Commit} {e : Entity} {t : Table}

theorem cases_of_tableOf? (h : setup.catalog.tableOf? e = some t) :
    t ∈ setup.catalog.tables ∧
      (e.id ∈ t.ids ∨ ∃ col ∈ setup.catalog.columnsOf t.id, col.id = e.id) := by
  have htable : ∀ {e : Entity}, ((setup.catalog.tableById? e.id).filter fun t => t.entity = e) = some t →
      t ∈ setup.catalog.tables ∧ e.id ∈ t.ids := by
    intro e h
    obtain ⟨ht, hid⟩ := Catalog.mem_of_tableById? (Option.filter_eq_some_iff.1 h).1
    exact ⟨ht, hid ▸ List.mem_cons_self⟩
  have hcolumn : ∀ {e : Entity}, (do
      let column ← (setup.catalog.columnById? e.id).filter fun column => column.entity = e
      setup.catalog.tableById? column.table) = some t →
      t ∈ setup.catalog.tables ∧ ∃ col ∈ setup.catalog.columnsOf t.id, col.id = e.id := by
    intro e h
    obtain ⟨col, hcol, h⟩ := Option.bind_eq_some_iff.1 h
    obtain ⟨ht, hid⟩ := Catalog.mem_of_tableById? h
    have hfind := (Option.filter_eq_some_iff.1 hcol).1
    exact ⟨ht, col, Catalog.mem_columnsOf.2 ⟨List.mem_of_find?_eq_some hfind, hid.symm⟩,
      by simpa using List.find?_some hfind⟩
  unfold Catalog.tableOf? at h
  split at h
  · exact (htable h).imp_right .inl
  · exact (htable h).imp_right .inl
  · exact (hcolumn h).imp_right .inr
  · exact (hcolumn h).imp_right .inr
  · obtain ⟨ht, creation, hc, hid⟩ := Catalog.mem_of_tableOfCreation? h
    exact ⟨ht, .inl (hid ▸ Table.creation_id_mem hc)⟩
  · cases h

/-- A table is there if a definition of it is. -/
theorem isInitialized_of_tableOf? (hwf : setup.catalog.WellFormed) (h : s.MadeOf setup cs)
    (ht : setup.catalog.tableOf? e = some t) (he : s.isInitialized e.id = true) :
    s.isInitialized t.id = true := by
  obtain ⟨ht, hdef⟩ := cases_of_tableOf? ht
  rw [h.isInitialized_iff hwf ht]
  rcases hdef with hdef | ⟨col, hcol, hid⟩
  · exact (h.isInitialized_iff_of_mem_ids hwf ht hdef).1 he
  · rw [← hid, h.isInitialized_column_iff hwf ht hcol] at he
    obtain ⟨c, hc, htable, -⟩ := he
    exact ⟨c, hc, htable⟩

/-- Asking for a table by itself is a run through that table alone. -/
theorem initializes_of_initTable (setup : Setup) (t : Table) (s : State) :
    ∃ cs, Initializes setup [] [t.entity] s cs
      (initTable setup (setup.catalog.tables.length + 1) [] t.entity s) := by
  obtain ⟨cs, hcs⟩ : ∃ cs, Initializes setup [] [t.entity] s cs
      (initAll (initTable setup (setup.catalog.tables.length + 1) []) [t.entity] s) :=
    initializes_of_initAll .nil (fun _ he => absurd he List.not_mem_nil) (by simp)
  refine ⟨cs, ?_⟩
  unfold initAll at hcs
  generalize initTable setup (setup.catalog.tables.length + 1) [] t.entity s = out at hcs ⊢
  obtain ⟨result, s'⟩ := out
  cases result with
  | error => exact hcs
  | ok => exact hcs

/-- Asking for a definition is asking for its table, whether the table is there or not. -/
theorem init_of_tableOf? (hwf : setup.catalog.WellFormed) (h : s.MadeOf setup cs)
    (ht : setup.catalog.tableOf? e = some t) :
    init setup e s = initTable setup (setup.catalog.tables.length + 1) [] t.entity s := by
  by_cases hinit : s.isInitialized e.id = true
  · have hthere := isInitialized_of_tableOf? hwf h ht hinit
    have hknown : setup.catalog.tableById? t.entity.id = some t :=
      hwf.tableById?_of_mem (cases_of_tableOf? ht).1
    rw [initTable_of_present hknown hthere]
    unfold init
    rw [if_pos hinit]
  · have hkind : e.kind.isDefinitional = true := by
      unfold Catalog.tableOf? at ht
      split at ht
      all_goals first | cases ht | (rename_i hk; rw [hk]; rfl)
    unfold init
    rw [if_neg hinit, if_pos hkind, ht]

/-- Asking for what belongs to no table brings nothing about. -/
theorem same_of_tableOf? (ht : setup.catalog.tableOf? e = none) : (init setup e s).2.Same s := by
  unfold init
  rw [ht]
  split
  · exact .skip
  · split
    · exact .rfl
    · split <;> exact .rfl

theorem tableOf?_entity (hwf : setup.catalog.WellFormed) (ht : t ∈ setup.catalog.tables) :
    setup.catalog.tableOf? t.entity = some t := by
  have hfind : (setup.catalog.tableById? t.entity.id).filter (fun t' => t'.entity = t.entity) = some t := by
    rw [show setup.catalog.tableById? t.entity.id = some t from hwf.tableById?_of_mem ht]
    simp
  unfold Catalog.tableOf?
  rcases t.entity_kind with hk | hk
  · rw [hk]
    exact hfind
  · rw [hk]
    exact hfind

end

namespace Run

variable {r : Run} {cs : List Commit} {t : Table}

theorem initTable_eq {name : String} {t : Table} (h : r.setup.catalog.table? name = some t) :
    r.initTable name = r.init t.entity := by
  unfold initTable Catalog.table
  rw [h]

theorem initTable_of_unknown {name : String} (h : r.setup.catalog.table? name = none) :
    r.initTable name = (.error (.unknownTable name), r) := by
  unfold initTable Catalog.table
  rw [h]

theorem after_materialize (r : Run) (name : String) :
    r.after (.materialize name) = (r.initTable name).2 := by
  unfold after materialize
  dsimp only
  split <;> (rename_i heq; rw [heq])

/-- Asking for the table with a name is asking for that table. -/
theorem initTable_of_table? (hwf : r.setup.catalog.WellFormed) (h : r.state.MadeOf r.setup cs)
    {name : String} (ht : r.setup.catalog.table? name = some t) :
    r.initTable name =
      r.step (Provenance.initTable r.setup (r.setup.catalog.tables.length + 1) [] t.entity) := by
  rw [initTable_eq ht, init, step, step,
    init_of_tableOf? hwf h (tableOf?_entity hwf (List.mem_of_find?_eq_some ht))]

/-- Asking for the table with a name is a run through that table. -/
theorem initializes_of_name (hwf : r.setup.catalog.WellFormed) (h : r.state.MadeOf r.setup cs)
    (name : String) :
    ∃ cs' out, Initializes r.setup [] (((r.setup.catalog.table? name).map Table.entity).toList) r.state
        cs' out ∧
      (r.initTable name).2.state.Same out.2 ∧ (r.initTable name).2.setup = r.setup ∧
      ((r.setup.catalog.table? name).isSome → (r.initTable name).1 = out.1) := by
  cases ht : r.setup.catalog.table? name with
  | none =>
    rw [initTable_of_unknown ht]
    exact ⟨[], _, .done, .rfl, rfl, nofun⟩
  | some t =>
    rw [initTable_of_table? hwf h ht]
    obtain ⟨cs', hcs'⟩ := initializes_of_initTable r.setup t r.state
    exact ⟨cs', _, hcs', .rfl, rfl, fun _ => rfl⟩

/-- Asking for a table of the catalog by its name goes on with the history. -/
theorem initializes_of_table {name : String} (hwf : r.setup.catalog.WellFormed)
    (h : r.state.MadeOf r.setup cs) (hfind : r.setup.catalog.table name = .ok t) :
    ∃ cs' out, Initializes r.setup [] [t.entity] r.state cs' out ∧ (r.initTable name).1 = out.1 ∧
      (r.initTable name).2.setup = r.setup ∧ (r.initTable name).2.state.MadeOf r.setup (cs ++ cs') := by
  obtain ⟨cs', out, hout, hsame, hsetup, hresult⟩ := initializes_of_name hwf h name
  rw [Catalog.table?_of_table hfind] at hout hresult
  exact ⟨cs', out, hout, hresult rfl, hsetup, (hout.madeOf_and_committed hwf h).1.same hsame⟩

/-- A table that was asked for with success is committed. -/
theorem committed_of_initTable {name : String} (hwf : r.setup.catalog.WellFormed)
    (h : r.state.MadeOf r.setup cs) (hfind : r.setup.catalog.table name = .ok t)
    (hok : (r.initTable name).1 = .ok ()) :
    (r.initTable name).2.setup = r.setup ∧ ∃ cs', (r.initTable name).2.state.MadeOf r.setup cs' ∧
      ∃ c ∈ cs', c.table = t := by
  obtain ⟨cs', out, hout, hresult, hsetup, hmade⟩ := initializes_of_table hwf h hfind
  obtain ⟨-, hcommitted⟩ := hout.madeOf_and_committed hwf h
  obtain ⟨u, hknown, hc⟩ := hcommitted (hresult.symm.trans hok) _ (List.mem_singleton_self _)
  cases (hwf.tableById?_of_mem (Catalog.mem_of_table hfind).1).symm.trans hknown
  exact ⟨hsetup, _, hmade, hc⟩

theorem setup_initTable (r : Run) (name : String) : (r.initTable name).2.setup = r.setup := by
  unfold initTable
  split <;> rfl

/-- A run stays what it was set up as. -/
theorem setup_after (r : Run) (call : Call) : (r.after call).setup = r.setup := by
  cases call with
  | init e => rfl
  | initTable name => exact setup_initTable r name
  | materialize name =>
    rw [after_materialize]
    exact setup_initTable r name
  | execute name => exact setup_initTable r name

theorem same_execute (r : Run) (name : String) :
    (r.after (.execute name)).state.Same (r.initTable name).2.state :=
  ⟨rfl, rfl, rfl, rfl, rfl⟩

/-- A call that is for no table brings nothing about. -/
theorem same_after_of_none {call : Call} (ht : call.table? r.setup.catalog = none) :
    (r.after call).state.Same r.state := by
  cases call with
  | init e => exact same_of_tableOf? ht
  | initTable name =>
    rw [after, initTable_of_unknown ht]
    exact .rfl
  | materialize name =>
    rw [after_materialize, initTable_of_unknown ht]
    exact .rfl
  | execute name =>
    have hsame := same_execute r name
    rwa [initTable_of_unknown ht] at hsame

/-- A call that is for a table asks for that table. -/
theorem same_after_of_table (hwf : r.setup.catalog.WellFormed) (h : r.state.MadeOf r.setup cs)
    {call : Call} (ht : call.table? r.setup.catalog = some t) :
    (r.after call).state.Same
      (Provenance.initTable r.setup (r.setup.catalog.tables.length + 1) [] t.entity r.state).2 := by
  cases call with
  | init e =>
    rw [after, init, step, init_of_tableOf? hwf h ht]
    exact .rfl
  | initTable name =>
    rw [after, initTable_of_table? hwf h ht]
    exact .rfl
  | materialize name =>
    rw [after_materialize, initTable_of_table? hwf h ht]
    exact .rfl
  | execute name =>
    have hsame := same_execute r name
    rwa [initTable_of_table? hwf h ht] at hsame

/-- A call is a run through the table that it is for. -/
theorem exists_initializes (hwf : r.setup.catalog.WellFormed) (h : r.state.MadeOf r.setup cs)
    (call : Call) :
    ∃ cs' out, Initializes r.setup [] (((call.table? r.setup.catalog).map Table.entity).toList) r.state
        cs' out ∧
      (r.after call).state.Same out.2 ∧ (r.after call).setup = r.setup := by
  cases ht : call.table? r.setup.catalog with
  | none => exact ⟨[], _, .done, same_after_of_none ht, setup_after r call⟩
  | some t =>
    obtain ⟨cs', hcs'⟩ := initializes_of_initTable r.setup t r.state
    exact ⟨cs', _, hcs', same_after_of_table hwf h ht, setup_after r call⟩

theorem Call.mem_of_table? {call : Call} (h : call.table? r.setup.catalog = some t) :
    t ∈ r.setup.catalog.tables := by
  cases call with
  | init e => exact (cases_of_tableOf? h).1
  | initTable name | materialize name | execute name => exact List.mem_of_find?_eq_some h

/-- A reachable run is one over the catalog of a schema. -/
theorem Reachable.exists_compile (h : r.Reachable) :
    ∃ (schema : Schema) (first : Nat), schema.compile first = .ok r.setup.catalog := by
  induction h with
  | start compiled => exact ⟨_, _, compiled⟩
  | call _ call ih => exact (setup_after _ call).symm ▸ ih
  | reset _ ih | wait _ _ ih => exact ih

/-- A call settles the table that it is for, and all that this one asks for. -/
theorem consistent_after (hwf : r.setup.catalog.WellFormed) (h : r.state.Consistent r.setup cs)
    (call : Call) :
    (r.after call).setup = r.setup ∧ ∃ cs', (r.after call).state.Consistent r.setup cs' ∧
      ∀ u, (r.after call).state.Settled r.setup cs' u ↔ r.state.Settled r.setup cs u ∨
        ∃ t ∈ call.table? r.setup.catalog, Relation.ReflTransGen (Asks r.setup) t u := by
  obtain ⟨cs', out, hout, hsame, hsetup⟩ := exists_initializes hwf h.made call
  obtain ⟨hconsistent, hsettled⟩ := hout.consistent hwf (fun _ => Call.mem_of_table?) h
  refine ⟨hsetup, cs ++ cs', hconsistent.same hsame, fun u => ?_⟩
  rw [← hsettled u, State.Settled, State.Settled, hsame.failures]

/-- The state of a reachable run is consistent. -/
theorem Reachable.exists_consistent (h : r.Reachable) :
    r.setup.catalog.WellFormed ∧ ∃ cs, r.state.Consistent r.setup cs := by
  induction h with
  | start compiled ids =>
    exact ⟨Schema.wellFormed_of_compile compiled, [], .start fun e he =>
      Nat.lt_of_lt_of_le (Schema.id_lt_of_compile compiled he) (Nat.le_succ_of_le ids)⟩
  | call h call ih =>
    obtain ⟨hwf, cs, h⟩ := ih
    obtain ⟨hsetup, cs', h', -⟩ := consistent_after hwf h call
    rw [hsetup]
    exact ⟨hwf, cs', h'⟩
  | reset h ih =>
    obtain ⟨hwf, cs, h⟩ := ih
    exact ⟨hwf, [], .start fun e he => Nat.lt_succ_of_lt (h.made.above e he)⟩
  | wait h now ih =>
    obtain ⟨hwf, cs, h⟩ := ih
    exact ⟨hwf, cs, h.same ⟨rfl, rfl, rfl, rfl, rfl⟩⟩

/-- The state of a reachable run is made of a history over a well-formed catalog. -/
theorem Reachable.exists_madeOf (h : r.Reachable) :
    r.setup.catalog.WellFormed ∧ ∃ cs, r.state.MadeOf r.setup cs := by
  obtain ⟨hwf, cs, h⟩ := h.exists_consistent
  exact ⟨hwf, cs, h.made⟩

end Run

end Provenance
