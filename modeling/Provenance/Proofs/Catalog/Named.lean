import Provenance.Proofs.Catalog.Compiled

/-!
# Names of columns

In the catalog of a schema a column is found under its name, and what a function or a creation refers to are
the columns that have the names in its definition (`Catalog.Named`). Names that no column has are passed
over.
-/

namespace Provenance

/-- Columns of one table have different names, and the entities that definitions refer to are those of the
columns with the names in them. -/
structure Catalog.Named (c : Catalog) : Prop where
  single : ∀ t ∈ c.tables, ((c.columnsOf t.id).map Column.name).Nodup
  creations : ∀ t ∈ c.tables, ∀ creation, t.creation = some creation →
    ∀ e, e ∈ creation.sourceColumns ↔
      ∃ name ∈ creation.approach.sourceColumns, ∃ col, c.column? name = some col ∧ col.entity = e
  references : ∀ col ∈ c.columns, ∀ expr, col.expr? = some expr →
    ∀ e, e ∈ col.references ↔
      ∃ name ∈ expr.columns, ∃ col', c.column? name = some col' ∧ col'.entity = e

namespace Catalog

variable {c : Catalog} {t : Table} {col : Column} {name : ColumnName}

/-- A column that is found under a name belongs to the table with the name. -/
theorem exists_of_column? (h : c.column? name = some col) :
    ∃ t ∈ c.tables, t.name = name.table ∧ col ∈ c.columnsOf t.id ∧ col.name = name.column := by
  obtain ⟨t, ht, hcol⟩ := Option.bind_eq_some_iff.1 h
  refine ⟨t, List.mem_of_find?_eq_some ht, by simpa using List.find?_some ht,
    List.mem_of_find?_eq_some hcol, by simpa using List.find?_some hcol⟩

theorem mem_of_column? (h : c.column? name = some col) : col ∈ c.columns := by
  obtain ⟨t, -, -, hcol, -⟩ := exists_of_column? h
  exact (mem_columnsOf.1 hcol).1

theorem column?_of_mem (hwf : c.WellFormed) (hsingle : ((c.columnsOf t.id).map Column.name).Nodup)
    (ht : t ∈ c.tables) (hcol : col ∈ c.columnsOf t.id) : c.column? ⟨t.name, col.name⟩ = some col := by
  have htable : c.table? t.name = some t := table?_of_table (hwf.table_of_mem ht)
  exact Option.bind_eq_some_iff.2 ⟨t, htable, (List.find?_key_eq_some_iff hsingle).2 ⟨hcol, rfl⟩⟩

end Catalog

namespace Schema

/-- The names of all tables with the columns that they declare. -/
def declarations (s : Schema) (first : Nat) : List (String × List Column) :=
  s.tables.map (fun t => (t.name, t.fields.map (s.compileField first t))) ++
    s.derived.map fun t => (t.name, t.columns.map (s.compileFunction first t))

variable {s : Schema} {first : Nat} {c : Catalog} {t : Table} {col : Column} {name : ColumnName}

theorem map_fst_declarations : (s.declarations first).map Prod.fst = s.tableNames := by
  simp [declarations, tableNames, Function.comp_def]

theorem compileColumns_eq : s.compileColumns first = (s.declarations first).flatMap Prod.snd := by
  simp [declarations, compileColumns, List.flatMap_map]

theorem table_of_mem_declarations {declared : String × List Column}
    (hdeclared : declared ∈ s.declarations first) (hcol : col ∈ declared.2) :
    col.table = s.tableId first declared.1 := by
  rcases List.mem_append.1 hdeclared with hdeclared | hdeclared
  · obtain ⟨d, -, rfl⟩ := List.mem_map.1 hdeclared
    obtain ⟨f, -, rfl⟩ := List.mem_map.1 hcol
    rfl
  · obtain ⟨d, -, rfl⟩ := List.mem_map.1 hdeclared
    obtain ⟨f, -, rfl⟩ := List.mem_map.1 hcol
    rfl

namespace Compiled

variable (h : Compiled s first c)
include h

theorem column_cases (hcol : col ∈ c.columns) :
    (∃ d ∈ s.tables, ∃ f ∈ d.fields, col = s.compileField first d f) ∨
      ∃ d ∈ s.derived, ∃ f ∈ d.columns, col = s.compileFunction first d f := by
  rw [h.columns] at hcol
  rcases List.mem_append.1 hcol with hcol | hcol
  · obtain ⟨d, hd, hcol⟩ := List.mem_flatMap.1 hcol
    obtain ⟨f, hf, rfl⟩ := List.mem_map.1 hcol
    exact .inl ⟨d, hd, f, hf, rfl⟩
  · obtain ⟨d, hd, hcol⟩ := List.mem_flatMap.1 hcol
    obtain ⟨f, hf, rfl⟩ := List.mem_map.1 hcol
    exact .inr ⟨d, hd, f, hf, rfl⟩

theorem table_id (ht : t ∈ c.tables) : t.id = s.tableId first t.name := by
  rcases h.table_cases ht with ⟨d, -, rfl⟩ | ⟨d, -, hdt⟩
  · rfl
  · obtain ⟨sources, -, rfl⟩ := compileDerived_eq hdt
    rfl

theorem name_mem (ht : t ∈ c.tables) : t.name ∈ s.tableNames := h.table_names ▸ List.mem_map_of_mem ht

/-- A table is told by the identity that its name was given. -/
theorem table_name_eq (ht : t ∈ c.tables) {name : String} (hid : t.id = s.tableId first name) :
    t.name = name :=
  eq_of_number_eq (h.name_mem ht) ((h.table_id ht).symm.trans hid)

theorem supplied_of_mem {d : TableDefinition} (hd : d ∈ s.tables) (ht : t ∈ c.tables)
    (hname : t.name = d.name) : t.creation = none := by
  rcases h.table_cases ht with ⟨d', -, rfl⟩ | ⟨d', hd', hdt⟩
  · rfl
  · obtain ⟨sources, -, rfl⟩ := compileDerived_eq hdt
    have hapart := (List.nodup_append.1 h.nodup_tableNames).2.2 _ (List.mem_map_of_mem hd) _
      (List.mem_map_of_mem hd')
    exact absurd hname.symm hapart

theorem creation_of_mem {d : DerivedDefinition} (hd : d ∈ s.derived) (ht : t ∈ c.tables)
    (hname : t.name = d.name) : ∃ creation, t.creation = some creation ∧ creation.approach = d.creation := by
  obtain ⟨-, hderived, hapart⟩ := List.nodup_append.1 h.nodup_tableNames
  rcases h.table_cases ht with ⟨d', hd', rfl⟩ | ⟨d', hd', hdt⟩
  · exact absurd hname (hapart _ (List.mem_map_of_mem hd') _ (List.mem_map_of_mem hd))
  · obtain ⟨sources, -, rfl⟩ := compileDerived_eq hdt
    cases List.inj_on_of_nodup_map hderived hd' hd hname
    exact ⟨_, rfl, rfl⟩

/-- The columns of a table are those that it declares, in the order of their declaration. -/
theorem columnsOf_of_declared {declared : String × List Column} (hdeclared : declared ∈ s.declarations first)
    (ht : t ∈ c.tables) (hname : t.name = declared.1) : c.columnsOf t.id = declared.2 := by
  have htable : ∀ declared' ∈ s.declarations first, ∀ col ∈ declared'.2,
      col.table = t.id ↔ declared'.1 = declared.1 := by
    intro declared' hdeclared' col hcol
    rw [table_of_mem_declarations hdeclared' hcol, h.table_id ht, ← hname]
    exact ⟨fun hid => (h.table_name_eq ht ((h.table_id ht).trans hid.symm)).symm, fun heq => heq ▸ rfl⟩
  have hother : ∀ declared' ∈ s.declarations first, declared'.1 ≠ declared.1 →
      declared'.2.filter (fun col => col.table = t.id) = [] := fun declared' hdeclared' hne =>
    List.filter_eq_nil_iff.2 fun col hcol heq =>
      hne ((htable declared' hdeclared' col hcol).1 (of_decide_eq_true heq))
  have hnames : ((s.declarations first).map Prod.fst).Nodup := by
    rw [map_fst_declarations]
    exact h.nodup_tableNames
  rw [Catalog.columnsOf, h.columns, compileColumns_eq, List.filter_flatMap,
    List.flatMap_eq_of_key hnames hdeclared hother]
  exact List.filter_eq_self.2 fun col hcol =>
    decide_eq_true ((htable declared hdeclared col hcol).2 rfl)

/-- The columns of a supplied table are its fields. -/
theorem fieldsOf_eq {d : TableDefinition} (hd : d ∈ s.tables) (ht : t ∈ c.tables) (hname : t.name = d.name) :
    c.columnsOf t.id = d.fields.map (s.compileField first d) :=
  h.columnsOf_of_declared (List.mem_append_left _ (List.mem_map_of_mem hd)) ht hname

theorem field_mem {d : TableDefinition} {f : FieldDefinition} (hd : d ∈ s.tables) (hf : f ∈ d.fields)
    (ht : t ∈ c.tables) (hname : t.name = d.name) : s.compileField first d f ∈ c.columnsOf t.id :=
  h.fieldsOf_eq hd ht hname ▸ List.mem_map_of_mem hf

/-- The columns of a derived table are its functions. -/
theorem columnsOf_eq {d : DerivedDefinition} (hd : d ∈ s.derived) (ht : t ∈ c.tables)
    (hname : t.name = d.name) : c.columnsOf t.id = d.columns.map (s.compileFunction first d) :=
  h.columnsOf_of_declared (List.mem_append_right _ (List.mem_map_of_mem hd)) ht hname

/-- A column of a table has the entity that the schema gives to its name. -/
theorem columnEntity?_of_mem (ht : t ∈ c.tables) (hcol : col ∈ c.columnsOf t.id) :
    s.columnEntity? first ⟨t.name, col.name⟩ = some col.entity := by
  obtain ⟨hcol, htable⟩ := Catalog.mem_columnsOf.1 hcol
  unfold columnEntity?
  rcases h.column_cases hcol with ⟨d, hd, f, hf, rfl⟩ | ⟨d, hd, f, hf, rfl⟩
  · have hname : t.name = d.name := h.table_name_eq ht htable.symm
    have hfield : (⟨d.name, f.name⟩ : ColumnName) ∈ s.fieldNames :=
      List.mem_flatMap.2 ⟨d, hd, List.mem_map.2 ⟨f, hf, rfl⟩⟩
    rw [hname]
    exact if_pos hfield
  · have hname : t.name = d.name := h.table_name_eq ht htable.symm
    have hfunction : (⟨d.name, f.name⟩ : ColumnName) ∈ s.functionNames :=
      List.mem_flatMap.2 ⟨d, hd, List.mem_map.2 ⟨f, hf, rfl⟩⟩
    have hapart : (⟨d.name, f.name⟩ : ColumnName) ∉ s.fieldNames := fun hfield =>
      (List.nodup_append.1 h.nodup_columnNames).2.2 _ hfield _ hfunction rfl
    rw [hname]
    exact (if_neg hapart).trans (if_pos hfunction)

/-- The entity that the schema gives to a name is that of a column with the name. -/
theorem exists_named {e : Entity} (he : s.columnEntity? first name = some e) :
    ∃ t ∈ c.tables, ∃ col ∈ c.columnsOf t.id, name = ⟨t.name, col.name⟩ ∧ col.entity = e := by
  obtain ⟨derived, hderived, htables⟩ := h.tables
  have hmem : ∀ {t : Table} {col : Column}, col ∈ s.compileColumns first → col.table = t.id →
      col ∈ c.columnsOf t.id := fun hcol htable =>
    Catalog.mem_columnsOf.2 ⟨h.columns ▸ hcol, htable⟩
  unfold columnEntity? at he
  split at he
  · next hname =>
    cases he
    obtain ⟨d, hd, hname⟩ := List.mem_flatMap.1 hname
    obtain ⟨f, hf, rfl⟩ := List.mem_map.1 hname
    refine ⟨s.compileTable first d, htables ▸ List.mem_append_left _ (List.mem_map_of_mem hd),
      s.compileField first d f, hmem ?_ rfl, rfl, rfl⟩
    exact List.mem_append_left _ (List.mem_flatMap.2 ⟨d, hd, List.mem_map_of_mem hf⟩)
  · split at he
    · next hname =>
      cases he
      obtain ⟨d, hd, hname⟩ := List.mem_flatMap.1 hname
      obtain ⟨f, hf, rfl⟩ := List.mem_map.1 hname
      obtain ⟨t, ht, hdt⟩ := hderived.exists_of_mem_left hd
      obtain ⟨sources, -, rfl⟩ := compileDerived_eq hdt
      refine ⟨_, htables ▸ List.mem_append_right _ ht, s.compileFunction first d f, hmem ?_ rfl, rfl, rfl⟩
      exact List.mem_append_right _ (List.mem_flatMap.2 ⟨d, hd, List.mem_map_of_mem hf⟩)
    · cases he

theorem single (hwf : c.WellFormed) (ht : t ∈ c.tables) :
    ((c.columnsOf t.id).map Column.name).Nodup := by
  have hcolumns : (c.columnsOf t.id).Nodup := (hwf.nodup_columnIds.of_map _).filter _
  refine hcolumns.map_on fun col hcol col' hcol' hname => ?_
  have hentity := h.columnEntity?_of_mem ht hcol
  rw [hname, h.columnEntity?_of_mem ht hcol'] at hentity
  exact hwf.column_eq (Catalog.mem_columnsOf.1 hcol).1 (Catalog.mem_columnsOf.1 hcol').1
    (Option.some.inj hentity).symm

/-- Names stand for the columns that are found under them. -/
theorem columnEntity?_eq_some_iff (hwf : c.WellFormed) {e : Entity} :
    s.columnEntity? first name = some e ↔ ∃ col, c.column? name = some col ∧ col.entity = e := by
  constructor
  · intro he
    obtain ⟨t, ht, col, hcol, rfl, rfl⟩ := h.exists_named he
    exact ⟨col, Catalog.column?_of_mem hwf (h.single hwf ht) ht hcol, rfl⟩
  · rintro ⟨col, hcol, rfl⟩
    obtain ⟨t, ht, htable, hcol, hcolumn⟩ := Catalog.exists_of_column? hcol
    have hname : name = ⟨t.name, col.name⟩ := by rw [htable, hcolumn]
    exact hname ▸ h.columnEntity?_of_mem ht hcol

end Compiled

/-- In the catalog of a schema columns are found under their names. -/
theorem named_of_compile (h : s.compile first = .ok c) : c.Named := by
  have hwf := wellFormed_of_compile h
  have h := compiled_of_compile h
  have hiff : ∀ {names : List ColumnName} {e : Entity}, e ∈ names.filterMap (s.columnEntity? first) ↔
      ∃ name ∈ names, ∃ col, c.column? name = some col ∧ col.entity = e := by
    simp only [List.mem_filterMap, h.columnEntity?_eq_some_iff hwf, implies_true]
  refine ⟨fun t ht => h.single hwf ht, fun t ht creation hc e => ?_, fun col hcol expr he e => ?_⟩
  · rcases h.table_cases ht with ⟨d, -, rfl⟩ | ⟨d, -, hdt⟩
    · cases hc
    · obtain ⟨sources, -, rfl⟩ := compileDerived_eq hdt
      cases hc
      exact mem_distinct.trans hiff
  · rcases h.column_cases hcol with ⟨d, -, f, -, rfl⟩ | ⟨d, -, f, -, rfl⟩
    · cases he
    · cases he
      refine hiff.trans ?_
      simp only [Expr.columnParams, mem_distinct]

end Schema

end Provenance
