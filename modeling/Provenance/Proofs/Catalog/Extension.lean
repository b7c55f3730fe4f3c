import Provenance.Proofs.Catalog.Closed
import Provenance.Proofs.View

/-!
# Catalogs with more definitions

Adding tables and hierarchies to a schema leaves its definitions: in the catalog of the larger schema
everything of the smaller one stands under the name that it had, made in the same way (`Catalog.ExtendedBy`).
Identities are given anew, so a definition is found in the larger catalog by its name (`Catalog.named?`). No
two definitions share one (`Catalog.named?_inj`).
-/

namespace Provenance

/-- A schema that has further tables, derived tables and hierarchies, anywhere in the document. -/
structure Schema.ExtendedBy (s s' : Schema) : Prop where
  tables : s.tables.Sublist s'.tables
  derived : s.derived.Sublist s'.derived
  hierarchies : s.hierarchies.Sublist s'.hierarchies

/-- The name of a table that a schema has and another one lacks. -/
def Schema.Adds (s s' : Schema) (table : String) : Prop := table ∈ s'.tableNames ∧ table ∉ s.tableNames

/-- The name of a definition: that of a table, of what creates a table, or of a column. -/
inductive Definition where
  | table (name : String)
  | creation (table : String)
  | column (name : ColumnName)

/-- The kinds of entities that have such a name. -/
def Definition.accepts : Definition → Entity.Kind → Bool
  | .table _, kind => kind == .databaseTable || kind == .derivedTable
  | .creation _, kind => kind == .tableCreation
  | .column _, kind => kind == .databaseField || kind == .function

namespace Catalog

variable {c c' : Catalog} {t t' : Table} {name : String} {d d' : Definition} {e : Entity}

/-! ## Definitions by their names -/

/-- The entity of the definition with a name. -/
def named? (c : Catalog) : Definition → Option Entity
  | .table name => c.tableNamed? name
  | .creation table => ((c.table? table).bind Table.creation).map Creation.entity
  | .column name => c.columnNamed? name

theorem WellFormed.table?_eq_some_iff (hwf : c.WellFormed) :
    c.table? name = some t ↔ t ∈ c.tables ∧ t.name = name :=
  List.find?_key_eq_some_iff hwf.names

theorem WellFormed.tableNamed?_eq_some_iff (hwf : c.WellFormed) :
    c.tableNamed? name = some e ↔ ∃ t ∈ c.tables, t.name = name ∧ t.entity = e := by
  simp only [tableNamed?, Option.map_eq_some_iff, hwf.table?_eq_some_iff, and_assoc]

theorem WellFormed.named?_creation_eq_some_iff (hwf : c.WellFormed) : c.named? (.creation name) = some e ↔
    ∃ t ∈ c.tables, t.name = name ∧ ∃ creation, t.creation = some creation ∧ creation.entity = e := by
  simp only [named?, Option.map_eq_some_iff, Option.bind_eq_some_iff, hwf.table?_eq_some_iff]
  constructor
  · rintro ⟨creation, ⟨t, ⟨ht, hname⟩, hc⟩, rfl⟩
    exact ⟨t, ht, hname, creation, hc, rfl⟩
  · rintro ⟨t, ht, hname, creation, hc, rfl⟩
    exact ⟨creation, ⟨t, ⟨ht, hname⟩, hc⟩, rfl⟩

theorem Named.columnNamed?_eq_some_iff (hnamed : c.Named) (hwf : c.WellFormed) {name : ColumnName} :
    c.columnNamed? name = some e ↔ ∃ t ∈ c.tables, t.name = name.table ∧
      ∃ col ∈ c.columnsOf t.id, col.name = name.column ∧ col.entity = e := by
  simp only [columnNamed?, Option.map_eq_some_iff, hnamed.column?_eq_some_iff hwf]
  constructor
  · rintro ⟨col, ⟨t, ht, htable, hcol, hcolumn⟩, rfl⟩
    exact ⟨t, ht, htable, col, hcol, hcolumn, rfl⟩
  · rintro ⟨t, ht, htable, col, hcol, hcolumn, rfl⟩
    exact ⟨col, ⟨t, ht, htable, hcol, hcolumn⟩, rfl⟩

section

variable (hwf : c.WellFormed) (hnamed : c.Named)
include hwf hnamed

theorem mem_entities_of_named? (h : c.named? d = some e) : e ∈ c.entities := by
  cases d with
  | table name =>
    obtain ⟨t, ht, -, rfl⟩ := hwf.tableNamed?_eq_some_iff.1 h
    exact table_entity_mem ht
  | creation table =>
    obtain ⟨t, ht, -, creation, hc, rfl⟩ := hwf.named?_creation_eq_some_iff.1 h
    exact creation_entity_mem ht hc
  | column name =>
    obtain ⟨t, -, -, col, hcol, -, rfl⟩ := (hnamed.columnNamed?_eq_some_iff hwf).1 h
    exact column_entity_mem (mem_columnsOf.1 hcol).1

/-- Every definition has a name. -/
theorem exists_named? (h : e ∈ c.entities) : ∃ d, c.named? d = some e := by
  rcases mem_entities_iff.1 h with ⟨t, ht, rfl⟩ | ⟨t, ht, creation, hc, rfl⟩ | ⟨col, hcol, rfl⟩
  · exact ⟨.table t.name, hwf.tableNamed?_eq_some_iff.2 ⟨t, ht, rfl, rfl⟩⟩
  · exact ⟨.creation t.name, hwf.named?_creation_eq_some_iff.2 ⟨t, ht, rfl, creation, hc, rfl⟩⟩
  · obtain ⟨t, ht, hid, -⟩ := (hwf.columns col hcol).owner
    have hcol : col ∈ c.columnsOf t.id := mem_columnsOf.2 ⟨hcol, hid.symm⟩
    exact ⟨.column ⟨t.name, col.name⟩,
      (hnamed.columnNamed?_eq_some_iff hwf).2 ⟨t, ht, rfl, col, hcol, rfl, rfl⟩⟩

theorem accepts_of_named? (h : c.named? d = some e) : d.accepts e.kind = true := by
  cases d with
  | table name =>
    obtain ⟨t, -, -, rfl⟩ := hwf.tableNamed?_eq_some_iff.1 h
    rcases t.entity_kind with hk | hk <;> rw [hk] <;> rfl
  | creation table =>
    obtain ⟨t, -, -, creation, -, rfl⟩ := hwf.named?_creation_eq_some_iff.1 h
    rfl
  | column name =>
    obtain ⟨t, -, -, col, -, -, rfl⟩ := (hnamed.columnNamed?_eq_some_iff hwf).1 h
    rcases col.entity_kind with hk | hk <;> rw [hk] <;> rfl

/-- A definition has one name only. -/
theorem named?_inj (h : c.named? d = some e) (h' : c.named? d' = some e) : d = d' := by
  have hkind := accepts_of_named? hwf hnamed h
  have hkind' := accepts_of_named? hwf hnamed h'
  cases d with
  | table name =>
    cases d' with
    | creation | column => cases hk : e.kind <;> simp [Definition.accepts, hk] at hkind hkind'
    | table name' =>
      obtain ⟨t, ht, rfl, rfl⟩ := hwf.tableNamed?_eq_some_iff.1 h
      obtain ⟨t', ht', rfl, heq⟩ := hwf.tableNamed?_eq_some_iff.1 h'
      rw [hwf.table_eq ht ht' (congrArg Entity.id heq.symm)]
  | creation table =>
    cases d' with
    | table | column => cases hk : e.kind <;> simp [Definition.accepts, hk] at hkind hkind'
    | creation table' =>
      obtain ⟨t, ht, rfl, creation, hc, rfl⟩ := hwf.named?_creation_eq_some_iff.1 h
      obtain ⟨t', ht', rfl, creation', hc', heq⟩ := hwf.named?_creation_eq_some_iff.1 h'
      have hid : creation'.id = creation.id := congrArg Entity.id heq
      rw [hwf.eq_of_mem_ids ht ht' (Table.creation_id_mem hc) (hid ▸ Table.creation_id_mem hc')]
  | column name =>
    cases d' with
    | table | creation => cases hk : e.kind <;> simp [Definition.accepts, hk] at hkind hkind'
    | column name' =>
      obtain ⟨t, ht, htable, col, hcol, hcolumn, rfl⟩ := (hnamed.columnNamed?_eq_some_iff hwf).1 h
      obtain ⟨t', ht', htable', col', hcol', hcolumn', heq⟩ := (hnamed.columnNamed?_eq_some_iff hwf).1 h'
      obtain ⟨hmem, howner⟩ := mem_columnsOf.1 hcol
      obtain ⟨hmem', howner'⟩ := mem_columnsOf.1 hcol'
      cases hwf.column_eq hmem hmem' heq.symm
      cases hwf.table_eq ht ht' (howner.symm.trans howner')
      cases name
      cases name'
      cases htable.symm.trans htable'
      cases hcolumn.symm.trans hcolumn'
      rfl

end

/-! ## Extension -/

/-- Columns of two catalogs that one definition declares. A function refers to what its expression reads, so far
as the catalog has it. -/
structure DeclareColumn (c c' : Catalog) (col col' : Column) : Prop where
  name : col'.name = col.name
  kind : (∃ type, col.kind = .field type ∧ col'.kind = .field type) ∨
    ∃ text e, col.kind = .function text e (e.columnParams.filterMap c.columnNamed?) ∧
      col'.kind = .function text e (e.columnParams.filterMap c'.columnNamed?)

/-- Tables of two catalogs that one definition declares. -/
def DeclareTable (c c' : Catalog) (t t' : Table) : Prop :=
  (∃ d, c.SuppliedAs d t ∧ c'.SuppliedAs d t') ∨ ∃ d, c.DerivedAs d t ∧ c'.DerivedAs d t'

/-- Well-formed catalogs of which the second one has everything that the first one has. -/
structure ExtendedBy (c c' : Catalog) : Prop where
  wellFormed : c.WellFormed
  wellFormed' : c'.WellFormed
  named : c.Named
  named' : c'.Named
  tables : ∀ t ∈ c.tables, ∃ t' ∈ c'.tables, DeclareTable c c' t t'
  hierarchies : ∀ name h, c.hierarchy name = .ok h → c'.hierarchy name = .ok h

end Catalog

/-- The catalog of a schema with more definitions has more. -/
theorem Schema.ExtendedBy.catalog {s s' : Schema} {first first' : Nat} {c c' : Catalog} (h : s.ExtendedBy s')
    (compiled : s.compile first = .ok c) (compiled' : s'.compile first' = .ok c') : c.ExtendedBy c' := by
  have hdeclares := declares_of_compile compiled
  have hdeclares' := declares_of_compile compiled'
  refine ⟨wellFormed_of_compile compiled, wellFormed_of_compile compiled', named_of_compile compiled,
    named_of_compile compiled', fun t ht => ?_, fun name hierarchy hfind => ?_⟩
  · obtain ⟨supplied, derived, htables, hsupplied, hderived⟩ := hdeclares.tables
    obtain ⟨supplied', derived', htables', hsupplied', hderived'⟩ := hdeclares'.tables
    rw [htables] at ht
    rcases List.mem_append.1 ht with ht | ht
    · obtain ⟨d, hd, hdeclared⟩ := hsupplied.exists_of_mem_right ht
      obtain ⟨t', ht', hdeclared'⟩ := hsupplied'.exists_of_mem_left (h.tables.subset hd)
      exact ⟨t', htables' ▸ List.mem_append_left _ ht', .inl ⟨d, hdeclared, hdeclared'⟩⟩
    · obtain ⟨d, hd, hdeclared⟩ := hderived.exists_of_mem_right ht
      obtain ⟨t', ht', hdeclared'⟩ := hderived'.exists_of_mem_left (h.derived.subset hd)
      exact ⟨t', htables' ▸ List.mem_append_right _ ht', .inr ⟨d, hdeclared, hdeclared'⟩⟩
  · obtain ⟨-, -, -, -, hnodup⟩ := compile_eq_ok_iff.1 compiled'
    have hnames : (c'.hierarchies.map Hierarchy.name).Nodup := by
      rw [hdeclares'.hierarchies, List.map_map]
      exact hnodup
    have hfound : hierarchy ∈ c.hierarchies ∧ hierarchy.name = name := by
      unfold Catalog.hierarchy at hfind
      split at hfind
      · next hfound =>
        cases hfind
        exact ⟨List.mem_of_find?_eq_some hfound, by simpa using List.find?_some hfound⟩
      · cases hfind
    have hmem : hierarchy ∈ c'.hierarchies := by
      rw [hdeclares.hierarchies] at hfound
      rw [hdeclares'.hierarchies]
      exact (h.hierarchies.map _).subset hfound.1
    unfold Catalog.hierarchy
    rw [(List.find?_key_eq_some_iff hnames).2 ⟨hmem, hfound.2⟩]

namespace Catalog

variable {c c' : Catalog} {t t' : Table} {col col' : Column}

namespace DeclareTable

theorem name (h : DeclareTable c c' t t') : t'.name = t.name := by
  rcases h with ⟨d, h, h'⟩ | ⟨d, h, h'⟩
  · rw [h.name, h'.name]
  · rw [h.name, h'.name]

/-- Tables that one definition declares are both supplied, or created in the same way. -/
theorem creation (h : DeclareTable c c' t t') : Option.Rel
    (fun x x' => ∃ a, c.CreatedAs a x ∧ c'.CreatedAs a x') t.creation t'.creation := by
  rcases h with ⟨d, h, h'⟩ | ⟨d, h, h'⟩
  · rw [h.supplied, h'.supplied]
    exact .none
  · obtain ⟨x, hx, hcreated⟩ := h.derived
    obtain ⟨x', hx', hcreated'⟩ := h'.derived
    rw [hx, hx']
    exact .some ⟨_, hcreated, hcreated'⟩

theorem columns (h : DeclareTable c c' t t') :
    List.Forall₂ (DeclareColumn c c') (c.columnsOf t.id) (c'.columnsOf t'.id) := by
  rcases h with ⟨d, h, h'⟩ | ⟨d, h, h'⟩
  · refine (List.forall₂_comp_iff.2 ⟨_, h.columns.flip, h'.columns⟩).imp ?_
    rintro col col' ⟨f, ⟨hname, hkind⟩, ⟨hname', hkind'⟩⟩
    exact ⟨hname'.trans hname.symm, .inl ⟨_, hkind, hkind'⟩⟩
  · refine (List.forall₂_comp_iff.2 ⟨_, h.columns.flip, h'.columns⟩).imp ?_
    rintro col col' ⟨f, ⟨hname, hkind⟩, ⟨hname', hkind'⟩⟩
    exact ⟨hname'.trans hname.symm, .inr ⟨_, _, hkind, hkind'⟩⟩

theorem isSome_creation (h : DeclareTable c c' t t') : t'.creation.isSome = t.creation.isSome :=
  h.creation.isSome_eq.symm

theorem origin (h : DeclareTable c c' t t') : t'.origin = t.origin := by
  rw [Table.origin, h.isSome_creation, Table.origin]

theorem entity_kind (h : DeclareTable c c' t t') : t'.entity.kind = t.entity.kind := by
  rw [Table.entity, h.isSome_creation, Table.entity]

end DeclareTable

theorem DeclareColumn.entity_kind (h : DeclareColumn c c' col col') : col'.entity.kind = col.entity.kind := by
  unfold Column.entity
  rcases h.kind with ⟨_, hk, hk'⟩ | ⟨_, _, hk, hk'⟩ <;> rw [hk, hk']

namespace ExtendedBy

variable (h : c.ExtendedBy c')
include h

/-- What has a name in a catalog has a counterpart of that name in one with more definitions. -/
theorem exists_named? {d : Definition} {e : Entity} (he : c.named? d = some e) :
    ∃ e', c'.named? d = some e' ∧ e'.kind = e.kind := by
  cases d with
  | table name =>
    obtain ⟨t, ht, rfl, rfl⟩ := h.wellFormed.tableNamed?_eq_some_iff.1 he
    obtain ⟨t', ht', hdeclare⟩ := h.tables t ht
    exact ⟨_, h.wellFormed'.tableNamed?_eq_some_iff.2 ⟨t', ht', hdeclare.name, rfl⟩, hdeclare.entity_kind⟩
  | creation table =>
    obtain ⟨t, ht, rfl, creation, hc, rfl⟩ := h.wellFormed.named?_creation_eq_some_iff.1 he
    obtain ⟨t', ht', hdeclare⟩ := h.tables t ht
    obtain ⟨creation', hc', -⟩ := (hc ▸ hdeclare.creation).of_some
    exact ⟨_, h.wellFormed'.named?_creation_eq_some_iff.2 ⟨t', ht', hdeclare.name, creation', hc', rfl⟩, rfl⟩
  | column name =>
    obtain ⟨t, ht, htable, col, hcol, hcolumn, rfl⟩ :=
      (h.named.columnNamed?_eq_some_iff h.wellFormed).1 he
    obtain ⟨t', ht', hdeclare⟩ := h.tables t ht
    obtain ⟨col', hcol', hdeclared⟩ := hdeclare.columns.exists_of_mem_left hcol
    have hfound := (h.named'.columnNamed?_eq_some_iff h.wellFormed').2
      ⟨t', ht', hdeclare.name.trans htable, col', hcol', hdeclared.name.trans hcolumn, rfl⟩
    exact ⟨_, hfound, hdeclared.entity_kind⟩

/-- A column of a table that is not new is found in both catalogs or in none. -/
theorem hasColumn_eq {name : ColumnName} (hold : (c'.table? name.table).isSome → (c.table? name.table).isSome) :
    c'.hasColumn name = c.hasColumn name := by
  unfold hasColumn
  rw [Bool.eq_iff_iff, Option.isSome_iff_exists, Option.isSome_iff_exists]
  simp only [h.named.column?_eq_some_iff h.wellFormed, h.named'.column?_eq_some_iff h.wellFormed']
  constructor
  · rintro ⟨col', t', ht', htable', hcol', hcolumn'⟩
    obtain ⟨t, hfind⟩ := Option.isSome_iff_exists.1
      (hold (Option.isSome_of_eq_some (h.wellFormed'.table?_eq_some_iff.2 ⟨ht', htable'⟩)))
    obtain ⟨ht, htable⟩ := h.wellFormed.table?_eq_some_iff.1 hfind
    obtain ⟨u, hu, hdeclare⟩ := h.tables t ht
    have hname : u.name = t'.name := hdeclare.name.trans (htable.trans htable'.symm)
    cases List.inj_on_of_nodup_map h.wellFormed'.names hu ht' hname
    obtain ⟨col, hcol, hdeclared⟩ := hdeclare.columns.exists_of_mem_right hcol'
    exact ⟨col, t, ht, htable, hcol, hdeclared.name.symm.trans hcolumn'⟩
  · rintro ⟨col, t, ht, htable, hcol, hcolumn⟩
    obtain ⟨t', ht', hdeclare⟩ := h.tables t ht
    obtain ⟨col', hcol', hdeclared⟩ := hdeclare.columns.exists_of_mem_left hcol
    exact ⟨col', t', ht', hdeclare.name.trans htable, hcol', hdeclared.name.trans hcolumn⟩

end ExtendedBy

end Catalog

end Provenance
