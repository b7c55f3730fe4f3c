import Provenance.Proofs.Confluence
import Provenance.Proofs.Grid
import Provenance.Proofs.Lineage.Resolution

/-!
# Requests for entities

What is asked for is a table, something that belongs to one, or something that is materialized. An entity of the
catalog belongs to exactly one table (`Catalog.WellFormed.exists_tableOf?`), so asking for it is asking for that
table, and asking again only tells what came of it (`Run.Reachable.init_again`). What is neither in the catalog
nor materialized is refused, unless its identity is that of something which was initialized
(`Run.Reachable.init_accepts`).
-/

namespace Provenance

namespace Catalog

variable {c : Catalog} {e : Entity} {t : Table}

/-- What belongs to a table is an entity of the catalog. -/
theorem mem_entities_of_tableOf? (h : c.tableOf? e = some t) : e ∈ c.entities := by
  have htable : (c.tableById? e.id).filter (fun t => t.entity = e) = some t → e ∈ c.entities := by
    intro h
    obtain ⟨hfind, hentity⟩ := Option.filter_eq_some_iff.1 h
    exact of_decide_eq_true hentity ▸ table_entity_mem (mem_of_tableById? hfind).1
  have hcolumn : ((c.columnById? e.id).filter (fun col => col.entity = e)).bind
      (fun col => c.tableById? col.table) = some t → e ∈ c.entities := by
    intro h
    obtain ⟨col, hcol, -⟩ := Option.bind_eq_some_iff.1 h
    obtain ⟨hfind, hentity⟩ := Option.filter_eq_some_iff.1 hcol
    exact of_decide_eq_true hentity ▸ column_entity_mem (List.mem_of_find?_eq_some hfind)
  obtain ⟨kind, id⟩ := e
  cases kind with
  | databaseTable | derivedTable => exact htable h
  | databaseField | function => exact hcolumn h
  | tableCreation =>
    obtain ⟨ht, creation, hc, rfl⟩ := mem_of_tableOfCreation? h
    exact creation_entity_mem ht hc
  | populatedTable | evaluatedTable | databaseRow | derivedRow | databaseValue | evaluatedValue => cases h

end Catalog

namespace Run

variable {r : Run} {e : Entity} {t : Table}

/-- The run after an entity was asked for that is there already. -/
def skip (r : Run) : Run := { r with state := r.state.skip }

/-- An entity is one of the catalog, or it is materialized. -/
def Contains (r : Run) (e : Entity) : Prop := r.setup.catalog.contains e ∨ r.state.store.contains e

instance (r : Run) (e : Entity) : Decidable (r.Contains e) := inferInstanceAs (Decidable (_ ∨ _))

/-! ## What is refused -/

theorem init_of_isInitialized (h : r.state.isInitialized e.id = true) : r.init e = (.ok (), r.skip) := by
  simp [init, step, Provenance.init, h, skip]

theorem init_of_not_contains (hnew : r.state.isInitialized e.id = false) (h : ¬r.Contains e) :
    r.init e = (.error (.dangling e), r) := by
  obtain ⟨hcatalog, hstore⟩ := not_or.1 h
  have hnone : r.setup.catalog.tableOf? e = none := by
    cases ht : r.setup.catalog.tableOf? e with
    | none => rfl
    | some t => exact absurd (Catalog.contains_iff.2 (Catalog.mem_entities_of_tableOf? ht)) hcatalog
  cases hkind : e.kind.isDefinitional <;>
    simp [init, step, Provenance.init, hnew, hnone, hkind, Bool.eq_false_iff.2 hstore]

/-- What is initialized has the identity of an entity of the catalog. -/
theorem Reachable.exists_entity_of_isInitialized (h : r.Reachable) {id : Id}
    (hid : r.state.isInitialized id = true) : ∃ e ∈ r.setup.catalog.entities, e.id = id := by
  obtain ⟨hwf, cs, hmade⟩ := h.exists_madeOf
  obtain ⟨c, hc, hid⟩ := (hmade.initialized id).1 hid
  apply List.mem_map.1
  rw [Catalog.map_id_entities, List.mem_append]
  -- A commit initializes its table with the creation, and the columns that it laid out.
  rcases hid with hid | hid
  · exact .inl (List.mem_flatMap.2 ⟨c.table, hmade.history.known hc, hid⟩)
  · obtain ⟨_, _, -, follows⟩ := hmade.history.exists_follows hc
    obtain ⟨columns, cells, hlaid⟩ := follows.exists_laid
    have hcolumns : c.draft.extent.columns = columns.map Column.id := congrArg Extent.columns hlaid.extent
    rw [hcolumns] at hid
    obtain ⟨col, hcol, rfl⟩ := List.mem_map.1 hid
    exact .inr (List.mem_map_of_mem (Catalog.mem_columnsOf.1 (hlaid.declared.subset hcol)).1)

/-- Asking for an entity of neither the catalog nor what is materialized is refused and changes nothing, unless
something with its identity is initialized. In that case it counts as there, whatever its kind. -/
theorem Reachable.init_accepts (h : r.Reachable) (e : Entity) :
    ((r.init e).1 = .ok () → r.Contains e ∨ r.state.isInitialized e.id = true) ∧
    (r.state.isInitialized e.id = false → ¬r.Contains e → r.init e = (.error (.dangling e), r)) ∧
    (r.state.isInitialized e.id = true →
      r.init e = (.ok (), r.skip) ∧ ∃ e' ∈ r.setup.catalog.entities, e'.id = e.id) := by
  refine ⟨fun hok => ?_, init_of_not_contains, fun hinit =>
    ⟨init_of_isInitialized hinit, h.exists_entity_of_isInitialized hinit⟩⟩
  by_contra hnot
  obtain ⟨hcontains, hnew⟩ := not_or.1 hnot
  rw [init_of_not_contains (Bool.eq_false_iff.2 hnew) hcontains] at hok
  cases hok

/-! ## What is asked for again -/

section

variable (h : r.Reachable)
include h

theorem Reachable.init_of_tableOf? (ht : r.setup.catalog.tableOf? e = some t) :
    r.init e =
      r.step (Provenance.initTable r.setup (r.setup.catalog.tables.length + 1) [] t.entity) := by
  obtain ⟨hwf, cs, hmade⟩ := h.exists_madeOf
  rw [init, step, step, Provenance.init_of_tableOf? hwf hmade ht]

end

end Run

namespace Sample

/-- Once the totals are there, an entity that nothing is passes for one if it has their identity. -/
theorem accepts_total_as_database :
    let r := run.after (.initTable "total")
    r.Reachable ∧ ¬r.Contains ⟨.databaseTable, ⟨2⟩⟩ ∧ (r.init ⟨.databaseTable, ⟨2⟩⟩).1 = .ok () ∧
      (r.init ⟨.databaseTable, ⟨2⟩⟩).2.state.skipped = r.state.skipped + 1 :=
  ⟨.call reachable_run _, by decide +kernel, rfl, rfl⟩

/-- An entity that nothing is passes for one after the table with its identity was initialized, and is refused
before. -/
theorem accepts_total :
    run.init ⟨.databaseTable, ⟨2⟩⟩ = (.error (.dangling ⟨.databaseTable, ⟨2⟩⟩), run) ∧
      let r := run.after (.initTable "total")
      r.init ⟨.databaseTable, ⟨2⟩⟩ = (.ok (), r.skip) := by
  obtain ⟨-, hrefused, -⟩ := Run.Reachable.init_accepts reachable_run ⟨.databaseTable, ⟨2⟩⟩
  have hreachable : (run.after (.initTable "total")).Reachable := .call reachable_run _
  obtain ⟨-, -, haccepted⟩ := Run.Reachable.init_accepts hreachable ⟨.databaseTable, ⟨2⟩⟩
  exact ⟨hrefused rfl (by decide +kernel), (haccepted rfl).1⟩

end Sample

end Provenance
