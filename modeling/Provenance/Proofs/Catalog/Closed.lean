import Provenance.Proofs.Catalog.Accepted
import Provenance.Proofs.Lineage.Resolution

/-!
# Closed catalogs

The catalog of a schema lists exactly what the schema declares, in the order of the document, and is closed:
every lookup finds exactly what is listed, and every reference is to something of the catalog, namely to what
has the name that it was written as (`Catalog.Declares`). Main statement: `Schema.compiles_closed`.
-/

namespace Provenance

namespace Catalog

/-- The entity of the table with a name. -/
def tableNamed? (c : Catalog) (name : String) : Option Entity := (c.table? name).map Table.entity

/-- The entity of the column with a name. -/
def columnNamed? (c : Catalog) (name : ColumnName) : Option Entity := (c.column? name).map Column.entity

/-- A table of the catalog is the one that a schema declares records for, with its fields in their order. -/
structure SuppliedAs (c : Catalog) (d : TableDefinition) (t : Table) : Prop where
  name : t.name = d.name
  supplied : t.creation = none
  columns : List.Forall₂ (fun f col => col.name = f.name ∧ col.kind = .field f.type)
    d.fields (c.columnsOf t.id)

/-- A creation is the one of an approach. It refers to the tables and columns that have the names in the
approach, each once. All of the tables are there, and columns that are not are left out. -/
structure CreatedAs (c : Catalog) (a : Approach) (creation : Creation) : Prop where
  approach : creation.approach = a
  named : ∀ name ∈ a.sourceTables, (c.table? name).isSome
  tables : creation.sourceTables = distinct (a.sourceTables.filterMap c.tableNamed?)
  columns : creation.sourceColumns = distinct (a.sourceColumns.filterMap c.columnNamed?)

/-- A table of the catalog is the derived one that a schema declares, with its functions in their order. A
function refers to the columns that its expression reads, so far as they are there. -/
structure DerivedAs (c : Catalog) (d : DerivedDefinition) (t : Table) : Prop where
  name : t.name = d.name
  derived : ∃ creation, t.creation = some creation ∧ c.CreatedAs d.creation creation
  columns : List.Forall₂ (fun f col => col.name = f.name ∧
      col.kind = .function ⟨f.text.getD f.name, f.language⟩ f.expr
        (f.expr.columnParams.filterMap c.columnNamed?))
    d.columns (c.columnsOf t.id)

/-- The catalog has exactly what a schema declares, and everything in it refers to something of it. -/
structure Declares (c : Catalog) (s : Schema) : Prop where
  /-- Supplied tables come first, and tables of one sort stand in the order of the document. -/
  tables : ∃ supplied derived, c.tables = supplied ++ derived ∧
    List.Forall₂ c.SuppliedAs s.tables supplied ∧ List.Forall₂ c.DerivedAs s.derived derived
  owners : ∀ col ∈ c.columns, ∃ t ∈ c.tables, col ∈ c.columnsOf t.id
  hierarchies : c.hierarchies = s.hierarchies.map Hierarchy.ofDefinition
  table : ∀ name t, c.table name = .ok t ↔ t ∈ c.tables ∧ t.name = name
  column : ∀ (name : ColumnName) col, c.column? name = some col ↔
    ∃ t ∈ c.tables, t.name = name.table ∧ col ∈ c.columnsOf t.id ∧ col.name = name.column
  tableById : ∀ id t, c.tableById? id = some t ↔ t ∈ c.tables ∧ t.id = id
  creationById : ∀ id creation, c.creationById? id = some creation ↔
    ∃ t ∈ c.tables, t.creation = some creation ∧ creation.id = id
  columnById : ∀ id col, c.columnById? id = some col ↔ col ∈ c.columns ∧ col.id = id
  sources : ∀ t ∈ c.tables, ∀ creation, t.creation = some creation →
    creation.sourceTables.Nodup ∧ creation.sourceColumns.Nodup ∧
      ∀ e ∈ creation.sourceTables ++ creation.sourceColumns, c.contains e
  references : ∀ col ∈ c.columns, col.references.Nodup ∧ ∀ e ∈ col.references, c.contains e
  contains : ∀ e, c.contains e ↔ (∃ t ∈ c.tables, t.entity = e) ∨
    (∃ t ∈ c.tables, ∃ creation, t.creation = some creation ∧ creation.entity = e) ∨
      ∃ col ∈ c.columns, col.entity = e
  /-- An identity belongs to one entity only, so to one kind. -/
  identities : (c.entities.map Entity.id).Nodup

variable {c : Catalog} {t : Table} {col : Column} {creation : Creation} {id : Id}

/-! ## Lookups and references -/

theorem WellFormed.table_eq_ok_iff (hwf : c.WellFormed) {name : String} :
    c.table name = .ok t ↔ t ∈ c.tables ∧ t.name = name := by
  constructor
  · exact mem_of_table
  · rintro ⟨ht, rfl⟩
    exact hwf.table_of_mem ht

theorem WellFormed.tableById?_eq_some_iff (hwf : c.WellFormed) :
    c.tableById? id = some t ↔ t ∈ c.tables ∧ t.id = id := by
  constructor
  · exact mem_of_tableById?
  · rintro ⟨ht, rfl⟩
    exact hwf.tableById?_of_mem ht

theorem WellFormed.creationById?_eq_some_iff (hwf : c.WellFormed) :
    c.creationById? id = some creation ↔ ∃ t ∈ c.tables, t.creation = some creation ∧ creation.id = id := by
  constructor
  · intro h
    obtain ⟨t, ht, hc⟩ := Option.bind_eq_some_iff.1 h
    obtain ⟨hmem, creation', hc', hid⟩ := mem_of_tableOfCreation? ht
    cases hc.symm.trans hc'
    exact ⟨t, hmem, hc, hid⟩
  · rintro ⟨t, ht, hc, rfl⟩
    exact hwf.creationById?_of_mem ht hc

/-- What a creation refers to is in the catalog. -/
theorem WellFormed.contains_source (hwf : c.WellFormed) (ht : t ∈ c.tables) (hc : t.creation = some creation)
    {e : Entity} (he : e ∈ creation.sourceTables ++ creation.sourceColumns) : c.contains e := by
  have hresolved := hwf.creations t ht creation hc
  rw [contains_iff]
  rcases List.mem_append.1 he with he | he
  · obtain ⟨t', ht', rfl, -⟩ := hresolved.tables e he
    exact table_entity_mem ht'
  · obtain ⟨col, hcol, rfl⟩ := hresolved.columns e he
    exact column_entity_mem hcol

/-- What a column refers to is in the catalog. -/
theorem WellFormed.contains_reference (hwf : c.WellFormed) (hcol : col ∈ c.columns) {e : Entity}
    (he : e ∈ col.references) : c.contains e := by
  obtain ⟨col', hcol', rfl⟩ := (hwf.columns col hcol).references e he
  exact contains_iff.2 (column_entity_mem hcol')

theorem Named.column?_eq_some_iff (hnamed : c.Named) (hwf : c.WellFormed) {name : ColumnName} :
    c.column? name = some col ↔
      ∃ t ∈ c.tables, t.name = name.table ∧ col ∈ c.columnsOf t.id ∧ col.name = name.column := by
  constructor
  · exact exists_of_column?
  · rintro ⟨t, ht, htable, hcol, hcolumn⟩
    have hfind := column?_of_mem hwf (hnamed.single t ht) ht hcol
    rwa [htable, hcolumn] at hfind

end Catalog

namespace Schema

variable {s : Schema} {first : Nat} {c : Catalog}

namespace Compiled

variable (h : Compiled s first c)
include h

theorem suppliedAs {d : TableDefinition} (hd : d ∈ s.tables) (ht : s.compileTable first d ∈ c.tables) :
    c.SuppliedAs d (s.compileTable first d) := by
  refine ⟨rfl, rfl, ?_⟩
  rw [h.fieldsOf_eq hd ht rfl, List.forall₂_map_right_iff]
  exact List.forall₂_same.2 fun f _ => ⟨rfl, rfl⟩

variable (hwf : c.WellFormed)
include hwf

/-- Names stand for the tables that are found under them. -/
theorem tableEntity?_eq (name : String) : s.tableEntity? first name = c.tableNamed? name := by
  unfold Catalog.tableNamed?
  cases he : s.tableEntity? first name with
  | some e =>
    obtain ⟨t, ht, rfl, rfl⟩ := h.exists_table he
    rw [Catalog.table?_of_table (hwf.table_of_mem ht)]
    rfl
  | none =>
    have hnot : name ∉ s.tableNames := fun hname => by
      have hsome : (s.tableEntity? first name).isSome := isSome_tableEntity?_iff.2 hname
      simp [he] at hsome
    cases hfind : c.table? name with
    | none => rfl
    | some t =>
      have hname : t.name = name := by simpa using List.find?_some hfind
      exact absurd (hname ▸ h.name_mem (List.mem_of_find?_eq_some hfind)) hnot

theorem columnEntity?_eq : s.columnEntity? first = c.columnNamed? := by
  funext name
  refine Option.ext fun e => ?_
  rw [h.columnEntity?_eq_some_iff hwf, Catalog.columnNamed?, Option.map_eq_some_iff]

theorem derivedAs {d : DerivedDefinition} {t : Table} (hd : d ∈ s.derived) (ht : t ∈ c.tables)
    (hdt : s.compileDerived first d = .ok t) : c.DerivedAs d t := by
  obtain ⟨sources, hsources, rfl⟩ := compileDerived_eq hdt
  have hresolved : List.Forall₂ (fun name e => c.tableNamed? name = some e) d.creation.sourceTables sources :=
    (List.mapM_eq_ok_iff.1 hsources).imp fun name e he =>
      h.tableEntity?_eq hwf name ▸ tableEntity?_of_sourceEntity he
  refine ⟨rfl, ⟨_, rfl, rfl, fun name hname => ?_, ?_, ?_⟩, ?_⟩
  · obtain ⟨e, -, he⟩ := hresolved.exists_of_mem_left hname
    obtain ⟨t, ht, -⟩ := Option.map_eq_some_iff.1 he
    exact Option.isSome_of_eq_some ht
  · have hsources : d.creation.sourceTables.filterMap c.tableNamed? = sources.filterMap some :=
      hresolved.filterMap_eq fun _ _ he => he
    rw [hsources, List.filterMap_some]
  · rw [h.columnEntity?_eq hwf]
  · rw [h.columnsOf_eq hd ht rfl, List.forall₂_map_right_iff, ← h.columnEntity?_eq hwf]
    exact List.forall₂_same.2 fun f _ => ⟨rfl, rfl⟩

end Compiled

/-- What a schema compiles to has exactly what the schema declares. -/
theorem declares_of_compile (hcompile : s.compile first = .ok c) : c.Declares s := by
  have hwf := wellFormed_of_compile hcompile
  have hnamed := named_of_compile hcompile
  have h := compiled_of_compile hcompile
  obtain ⟨derived, hderived, htables⟩ := h.tables
  constructor
  case tables =>
    refine ⟨_, derived, htables, ?_, ?_⟩
    · rw [List.forall₂_map_right_iff]
      exact List.forall₂_same.2 fun d hd =>
        h.suppliedAs hd (htables ▸ List.mem_append_left _ (List.mem_map_of_mem hd))
    · have hmem := hderived.mem_left.mem_right
      exact hmem.imp fun d t ⟨ht, hd, hdt⟩ => h.derivedAs hwf hd (htables ▸ List.mem_append_right _ ht) hdt
  case owners =>
    intro col hcol
    obtain ⟨t, ht, hid, -⟩ := (hwf.columns col hcol).owner
    exact ⟨t, ht, Catalog.mem_columnsOf.2 ⟨hcol, hid.symm⟩⟩
  case hierarchies =>
    obtain ⟨-, -, ⟨_, -, rfl⟩, -⟩ := compile_eq_ok_iff.1 hcompile
    rfl
  case table => exact fun _ _ => hwf.table_eq_ok_iff
  case column => exact fun _ _ => hnamed.column?_eq_some_iff hwf
  case tableById => exact fun _ _ => hwf.tableById?_eq_some_iff
  case creationById => exact fun _ _ => hwf.creationById?_eq_some_iff
  case columnById => exact fun _ _ => List.find?_key_eq_some_iff hwf.nodup_columnIds
  case sources => exact fun t ht creation hc =>
    ⟨(hwf.creations t ht creation hc).nodup_tables, (hwf.creations t ht creation hc).nodup_columns,
      fun _ => hwf.contains_source ht hc⟩
  case references => exact fun col hcol =>
    ⟨(hwf.columns col hcol).nodup_references, fun _ => hwf.contains_reference hcol⟩
  case contains => exact fun e => Catalog.contains_iff.trans Catalog.mem_entities_iff
  case identities => exact hwf.ids

/-- A schema compiles exactly if it is well formed, whatever identities the catalog gets. The catalog then has
exactly what the schema declares, in the order of the document, and everything in it refers to something of
it. -/
theorem compiles_closed (s : Schema) (first : Nat) :
    ((∃ c, s.compile first = .ok c) ↔ s.WellFormed) ∧ ∀ c, s.compile first = .ok c → c.Declares s :=
  ⟨exists_compile_iff s first, fun _ => declares_of_compile⟩

end Schema

namespace Sample

/-- The sales and their totals are well formed, a table that is derived from itself with them, and the catalog
has all three. -/
theorem closed_catalog : schema.WellFormed ∧ catalog.Declares schema := by
  have hcompiled : schema.compile 0 = .ok catalog := rfl
  obtain ⟨haccepted, hclosed⟩ := Schema.compiles_closed schema 0
  exact ⟨haccepted.1 ⟨catalog, hcompiled⟩, hclosed catalog hcompiled⟩

end Sample

end Provenance
