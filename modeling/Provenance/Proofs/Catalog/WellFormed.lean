import Provenance.Catalog.Basic
import Provenance.Proofs.Distinct

/-!
# Well-formed catalogs

In a well-formed catalog no two definitions share an identity and no two tables a name, computed columns
belong to derived tables and supplied ones to database tables, and everything that a definition names is
there (`Catalog.WellFormed`). Looking a definition up then finds exactly the one that has the name or
identity.
-/

namespace Provenance

/-- The tables and columns that a creation reads are there, each once, and the tables are those that its
approach names. -/
structure Creation.Resolved (c : Catalog) (creation : Creation) : Prop where
  named : ∀ name ∈ creation.approach.sourceTables,
    ∃ t ∈ c.tables, t.name = name ∧ t.entity ∈ creation.sourceTables
  tables : ∀ e ∈ creation.sourceTables,
    ∃ t ∈ c.tables, t.entity = e ∧ t.name ∈ creation.approach.sourceTables
  columns : ∀ e ∈ creation.sourceColumns, ∃ col ∈ c.columns, col.entity = e
  nodup_tables : creation.sourceTables.Nodup
  nodup_columns : creation.sourceColumns.Nodup

/-- The columns that a function reads are there, each once. -/
structure Column.Resolved (c : Catalog) (col : Column) : Prop where
  /-- The column belongs to a table, which is derived if the column is computed. -/
  owner : ∃ t ∈ c.tables, t.id = col.table ∧ t.creation.isSome = col.expr?.isSome
  references : ∀ e ∈ col.references, ∃ col' ∈ c.columns, col'.entity = e
  nodup_references : col.references.Nodup

/-- A catalog in which identities and names of tables are single and everything that is named is there. -/
structure Catalog.WellFormed (c : Catalog) : Prop where
  ids : (c.entities.map Entity.id).Nodup
  names : (c.tables.map Table.name).Nodup
  creations : ∀ t ∈ c.tables, ∀ creation, t.creation = some creation → creation.Resolved c
  columns : ∀ col ∈ c.columns, col.Resolved c

/-- The identities of a table and of its creation. -/
def Table.ids (t : Table) : List Id := t.id :: (t.creation.map Creation.id).toList

theorem Table.creation_id_mem {t : Table} {creation : Creation} (hc : t.creation = some creation) :
    creation.id ∈ t.ids := by
  simp [ids, hc]

theorem Column.entity_id (col : Column) : col.entity.id = col.id := by
  unfold Column.entity
  split <;> rfl

theorem Table.entity_kind (t : Table) :
    t.entity.kind = .databaseTable ∨ t.entity.kind = .derivedTable := by
  unfold Table.entity
  split
  · exact .inr rfl
  · exact .inl rfl

theorem Column.entity_kind (col : Column) :
    col.entity.kind = .databaseField ∨ col.entity.kind = .function := by
  unfold Column.entity
  split
  · exact .inl rfl
  · exact .inr rfl

theorem Column.entity_of_expr {col : Column} (h : col.expr?.isSome) : col.entity = ⟨.function, col.id⟩ := by
  unfold Column.expr? at h
  unfold Column.entity
  split at h
  · next hkind => simp only [hkind]
  · cases h

/-- An entity is the creation of a table or one of its columns. -/
def Catalog.Defines (c : Catalog) (t : Table) (e : Entity) : Prop :=
  (∃ creation, t.creation = some creation ∧ creation.entity = e) ∨
    ∃ col ∈ c.columnsOf t.id, col.entity = e

/-- A table is derived from another one of the catalog. -/
def Catalog.Reads (c : Catalog) (t t' : Table) : Prop := t' ∈ c.tables ∧ t'.entity ∈ t.sources

namespace Catalog

variable {c : Catalog} {t t' : Table} {creation : Creation} {col col' : Column} {id : Id} {name : String}

/-! ## Entities -/

theorem mem_entities_iff {e : Entity} :
    e ∈ c.entities ↔ (∃ t ∈ c.tables, t.entity = e) ∨
      (∃ t ∈ c.tables, ∃ creation, t.creation = some creation ∧ creation.entity = e) ∨
      ∃ col ∈ c.columns, col.entity = e := by
  simp only [entities, tableEntities, List.mem_append, List.mem_flatMap, List.mem_cons,
    Option.mem_toList, Option.map_eq_some_iff, List.mem_map, and_or_left, exists_or, or_assoc,
    @eq_comm _ e]

theorem table_entity_mem (ht : t ∈ c.tables) : t.entity ∈ c.entities :=
  mem_entities_iff.2 (.inl ⟨t, ht, rfl⟩)

theorem creation_entity_mem (ht : t ∈ c.tables) (hc : t.creation = some creation) :
    creation.entity ∈ c.entities :=
  mem_entities_iff.2 (.inr (.inl ⟨t, ht, creation, hc, rfl⟩))

theorem column_entity_mem (hcol : col ∈ c.columns) : col.entity ∈ c.entities :=
  mem_entities_iff.2 (.inr (.inr ⟨col, hcol, rfl⟩))

theorem isDefinitional_of_mem {e : Entity} (he : e ∈ c.entities) : e.kind.isDefinitional := by
  rcases mem_entities_iff.1 he with ⟨t, -, rfl⟩ | ⟨_, -, creation, -, rfl⟩ | ⟨col, -, rfl⟩
  · rcases t.entity_kind with hk | hk <;> rw [hk] <;> rfl
  · rfl
  · rcases col.entity_kind with hk | hk <;> rw [hk] <;> rfl

/-- The identities of a catalog are those of its tables with their creations and of its columns. -/
theorem map_id_entities (c : Catalog) :
    c.entities.map Entity.id = c.tables.flatMap Table.ids ++ c.columns.map Column.id := by
  unfold entities tableEntities
  rw [List.map_append, List.map_flatMap, List.map_map]
  congr 1
  · refine List.flatMap_congr fun t _ => ?_
    unfold Table.ids
    cases t.creation <;> rfl
  · exact List.map_congr_left fun col _ => col.entity_id

theorem mem_columnsOf : col ∈ c.columnsOf id ↔ col ∈ c.columns ∧ col.table = id := by
  simp [columnsOf]

theorem Defines.mem_entities {e : Entity} (h : c.Defines t e) (ht : t ∈ c.tables) : e ∈ c.entities := by
  rcases h with ⟨creation, hc, rfl⟩ | ⟨col, hcol, rfl⟩
  · exact creation_entity_mem ht hc
  · exact column_entity_mem (mem_columnsOf.1 hcol).1

/-! ## Lookups -/

theorem mem_of_tableById? (h : c.tableById? id = some t) : t ∈ c.tables ∧ t.id = id :=
  ⟨List.mem_of_find?_eq_some h, by simpa using List.find?_some h⟩

theorem mem_of_tableOfCreation? (h : c.tableOfCreation? id = some t) :
    t ∈ c.tables ∧ ∃ creation, t.creation = some creation ∧ creation.id = id := by
  have hany := List.find?_some h
  refine ⟨List.mem_of_find?_eq_some h, ?_⟩
  cases hc : t.creation with
  | none => simp [hc] at hany
  | some creation => exact ⟨creation, rfl, by simpa [hc] using hany⟩

theorem table?_of_table (h : c.table name = .ok t) : c.table? name = some t := by
  unfold table at h
  split at h
  · next hfind => cases h; exact hfind
  · cases h

theorem mem_of_table (h : c.table name = .ok t) : t ∈ c.tables ∧ t.name = name :=
  have hfind := table?_of_table h
  ⟨List.mem_of_find?_eq_some hfind, by simpa using List.find?_some hfind⟩

namespace WellFormed

theorem entity_eq (h : c.WellFormed) {e e' : Entity} (he : e ∈ c.entities) (he' : e' ∈ c.entities)
    (hid : e.id = e'.id) : e = e' :=
  List.inj_on_of_nodup_map h.ids he he' hid

theorem nodup_columnIds (h : c.WellFormed) : (c.columns.map Column.id).Nodup := by
  have hids := h.ids
  rw [map_id_entities] at hids
  exact (List.nodup_append.1 hids).2.1

theorem column_eq (h : c.WellFormed) (hcol : col ∈ c.columns) (hcol' : col' ∈ c.columns)
    (hentity : col.entity = col'.entity) : col = col' := by
  refine List.inj_on_of_nodup_map h.nodup_columnIds hcol hcol' ?_
  rw [← col.entity_id, ← col'.entity_id, hentity]

/-- An identity belongs to one table, or the creation of one table, only. -/
theorem eq_of_mem_ids (h : c.WellFormed) (ht : t ∈ c.tables) (ht' : t' ∈ c.tables)
    (hid : id ∈ t.ids) (hid' : id ∈ t'.ids) : t = t' := by
  have hids := h.ids
  rw [map_id_entities] at hids
  exact List.eq_of_nodup_flatMap (List.nodup_append.1 hids).1 ht ht' hid hid'

theorem id_not_mem_columns (h : c.WellFormed) (ht : t ∈ c.tables) (hid : id ∈ t.ids)
    (hcol : col ∈ c.columns) : col.id ≠ id := by
  have hids := h.ids
  rw [map_id_entities] at hids
  exact fun heq => (List.nodup_append.1 hids).2.2 id (List.mem_flatMap.2 ⟨t, ht, hid⟩) col.id
    (List.mem_map_of_mem hcol) heq.symm

theorem table_eq (h : c.WellFormed) (ht : t ∈ c.tables) (ht' : t' ∈ c.tables) (hid : t.id = t'.id) :
    t = t' :=
  have hmem : t.id ∈ t'.ids := hid ▸ List.mem_cons_self
  h.eq_of_mem_ids ht ht' List.mem_cons_self hmem

/-- An identity of a creation or a column tells which table it is of. -/
theorem eq_of_defines (h : c.WellFormed) (ht : t ∈ c.tables) (ht' : t' ∈ c.tables) {e e' : Entity}
    (he : c.Defines t e) (he' : c.Defines t' e') (hid : e.id = e'.id) : t = t' := by
  have heq := h.entity_eq (he.mem_entities ht) (he'.mem_entities ht') hid
  subst heq
  rcases he with ⟨creation, hc, rfl⟩ | ⟨col, hcol, rfl⟩
  · rcases he' with ⟨creation', hc', heq⟩ | ⟨col', hcol', heq⟩
    · have hid : creation'.id = creation.id := congrArg Entity.id heq
      exact h.eq_of_mem_ids ht ht' (Table.creation_id_mem hc) (hid ▸ Table.creation_id_mem hc')
    · have hkind := congrArg Entity.kind heq
      rcases col'.entity_kind with hk | hk <;> cases hk.symm.trans hkind
  · rcases he' with ⟨creation', hc', heq⟩ | ⟨col', hcol', heq⟩
    · have hkind := congrArg Entity.kind heq
      rcases col.entity_kind with hk | hk <;> cases hk.symm.trans hkind.symm
    · obtain ⟨hcol, htable⟩ := mem_columnsOf.1 hcol
      obtain ⟨hcol', htable'⟩ := mem_columnsOf.1 hcol'
      have heq := h.column_eq hcol' hcol heq
      exact h.table_eq ht ht' (htable.symm.trans (heq ▸ htable'))

theorem tableById?_of_mem (h : c.WellFormed) (ht : t ∈ c.tables) : c.tableById? t.id = some t := by
  cases hfind : c.tableById? t.id with
  | none => exact absurd (List.find?_eq_none.1 hfind t ht) (by simp)
  | some t' =>
    obtain ⟨ht', hid⟩ := mem_of_tableById? hfind
    rw [h.table_eq ht' ht hid]

theorem tableOfCreation?_of_mem (h : c.WellFormed) (ht : t ∈ c.tables) (hc : t.creation = some creation) :
    c.tableOfCreation? creation.id = some t := by
  cases hfind : c.tableOfCreation? creation.id with
  | none => exact absurd (List.find?_eq_none.1 hfind t ht) (by simp [hc])
  | some t' =>
    obtain ⟨ht', creation', hc', hid⟩ := mem_of_tableOfCreation? hfind
    rw [h.eq_of_mem_ids ht' ht (hid ▸ Table.creation_id_mem hc') (Table.creation_id_mem hc)]

theorem creationById?_of_mem (h : c.WellFormed) (ht : t ∈ c.tables) (hc : t.creation = some creation) :
    c.creationById? creation.id = some creation := by
  simp [creationById?, h.tableOfCreation?_of_mem ht hc, hc]

theorem table_of_mem (h : c.WellFormed) (ht : t ∈ c.tables) : c.table t.name = .ok t := by
  have hfind : c.table? t.name = some t := (List.find?_key_eq_some_iff h.names).2 ⟨ht, rfl⟩
  simp only [table, hfind]

theorem columnById?_of_mem (h : c.WellFormed) (hcol : col ∈ c.columns) : c.columnById? col.id = some col :=
  (List.find?_key_eq_some_iff h.nodup_columnIds).2 ⟨hcol, rfl⟩

/-- The columns of a table are computed if it is derived, and supplied if it is not. -/
theorem expr?_isSome (h : c.WellFormed) (ht : t ∈ c.tables) (hcol : col ∈ c.columnsOf t.id) :
    col.expr?.isSome = t.creation.isSome := by
  obtain ⟨hcol, htable⟩ := mem_columnsOf.1 hcol
  obtain ⟨t', ht', hid, hkind⟩ := (h.columns col hcol).owner
  rw [← hkind, h.table_eq ht' ht (hid.trans htable)]

/-- What a table is derived from are tables of the catalog. -/
theorem reads_of_mem_sources (h : c.WellFormed) (ht : t ∈ c.tables) {e : Entity}
    (he : e ∈ t.sources) : ∃ t', c.Reads t t' ∧ t'.entity = e := by
  have he' := he
  unfold Table.sources at he'
  cases hc : t.creation with
  | none => rw [hc] at he'; cases he'
  | some creation =>
    rw [hc] at he'
    obtain ⟨t', ht', rfl, -⟩ := (h.creations t ht creation hc).tables e he'
    exact ⟨t', ⟨ht', he⟩, rfl⟩

end WellFormed

end Catalog

end Provenance
