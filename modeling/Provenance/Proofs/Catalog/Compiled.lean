import Provenance.Catalog.Compile
import Provenance.Proofs.Catalog.WellFormed
import Provenance.Proofs.Traverse

/-!
# The catalog of a schema

What a schema compiles to is well formed (`Schema.wellFormed_of_compile`), and its identities lie below the
first one that is free (`Schema.id_lt_of_compile`): tables, creations and columns are numbered one sort
after the other, and names of one sort are single.
-/

namespace Provenance

theorem firstRepeat?_eq_none_iff {α : Type} [DecidableEq α] {xs : List α} :
    firstRepeat? xs = none ↔ xs.Nodup := by
  suffices H : ∀ seen, firstRepeat?.go seen xs = none ↔ xs.Nodup ∧ ∀ x ∈ xs, x ∉ seen by
    simpa [firstRepeat?] using H []
  induction xs with
  | nil => simp [firstRepeat?.go]
  | cons x xs ih =>
    intro seen
    unfold firstRepeat?.go
    split
    · next h => simp [h]
    · next h =>
      rw [ih, List.nodup_cons]
      constructor
      · rintro ⟨hnodup, hseen⟩
        refine ⟨⟨fun hx => hseen x hx List.mem_cons_self, hnodup⟩, fun y hy => ?_⟩
        rcases List.mem_cons.1 hy with rfl | hy
        · exact h
        · exact fun hmem => hseen y hy (List.mem_cons_of_mem _ hmem)
      · rintro ⟨⟨hx, hnodup⟩, hseen⟩
        refine ⟨hnodup, fun y hy hmem => ?_⟩
        rcases List.mem_cons.1 hmem with rfl | hmem
        · exact hx hy
        · exact hseen y (List.mem_cons_of_mem _ hy) hmem

namespace Schema

variable {s : Schema} {first : Nat} {c : Catalog}

theorem requireSingle_eq_ok_iff {α : Type} [DecidableEq α] {flaw : α → Flaw} {names : List α} {u : Unit} :
    requireSingle flaw names = .ok u ↔ names.Nodup := by
  rw [← firstRepeat?_eq_none_iff]
  unfold requireSingle
  split
  · next h => simp [h]
  · next h => simp [h]

/-- What a schema compiles to, apart from its hierarchies. -/
structure Compiled (s : Schema) (first : Nat) (c : Catalog) : Prop where
  nodup_tableNames : s.tableNames.Nodup
  nodup_columnNames : s.columnNames.Nodup
  tables : ∃ derived, List.Forall₂ (fun d t => s.compileDerived first d = .ok t) s.derived derived ∧
    c.tables = s.tables.map (s.compileTable first) ++ derived
  columns : c.columns = s.compileColumns first

theorem compiled_of_compile (h : s.compile first = .ok c) : Compiled s first c := by
  obtain ⟨_, htables, h⟩ := Except.bind_eq_ok_iff.1 h
  obtain ⟨_, hcolumns, h⟩ := Except.bind_eq_ok_iff.1 h
  obtain ⟨derived, hderived, h⟩ := Except.bind_eq_ok_iff.1 h
  obtain ⟨hierarchies, -, h⟩ := Except.bind_eq_ok_iff.1 h
  cases h
  exact ⟨requireSingle_eq_ok_iff.1 htables, requireSingle_eq_ok_iff.1 hcolumns,
    ⟨derived, List.mapM_eq_ok_iff.1 hderived, rfl⟩, rfl⟩

/-! ## Tables -/

/-- A derived table and its creation, given the entities of its source tables. -/
def derivedTable (s : Schema) (first : Nat) (d : DerivedDefinition) (sources : List Entity) :
    Table :=
  ⟨s.tableId first d.name, d.name, some ⟨s.creationId first d.name, d.creation, distinct sources,
    distinct (d.creation.sourceColumns.filterMap (s.columnEntity? first))⟩⟩

theorem compileDerived_eq {d : DerivedDefinition} {t : Table}
    (h : s.compileDerived first d = .ok t) :
    ∃ sources, d.creation.sourceTables.mapM (s.sourceEntity first d) = .ok sources ∧
      t = derivedTable s first d sources := by
  obtain ⟨sources, hsources, h⟩ := Except.bind_eq_ok_iff.1 h
  dsimp only [Table.derive] at h
  split at h
  · cases h
  · cases h
    exact ⟨sources, hsources, rfl⟩

theorem tableEntity?_of_sourceEntity {d : DerivedDefinition} {name : String} {e : Entity}
    (h : s.sourceEntity first d name = .ok e) : s.tableEntity? first name = some e := by
  unfold sourceEntity at h
  split at h
  · next heq => cases h; exact heq
  · cases h

namespace Compiled

variable (h : Compiled s first c)
include h

theorem table_cases {t : Table} (ht : t ∈ c.tables) :
    (∃ d ∈ s.tables, t = s.compileTable first d) ∨
      ∃ d ∈ s.derived, s.compileDerived first d = .ok t := by
  obtain ⟨derived, hderived, htables⟩ := h.tables
  rw [htables, List.mem_append, List.mem_map] at ht
  rcases ht with ⟨d, hd, rfl⟩ | ht
  · exact .inl ⟨d, hd, rfl⟩
  · exact .inr (hderived.exists_of_mem_right ht)

theorem table_names : c.tables.map Table.name = s.tableNames := by
  obtain ⟨derived, hderived, htables⟩ := h.tables
  rw [htables, List.map_append, List.map_map, tableNames]
  congr 1
  refine (hderived.map_eq fun d t hd => ?_).symm
  obtain ⟨sources, -, rfl⟩ := compileDerived_eq hd
  rfl

/-- The entity that a schema gives to the name of a table is that of a table of the catalog. -/
theorem exists_table {name : String} {e : Entity} (he : s.tableEntity? first name = some e) :
    ∃ t ∈ c.tables, t.name = name ∧ t.entity = e := by
  obtain ⟨derived, hderived, htables⟩ := h.tables
  rw [htables]
  unfold tableEntity? at he
  split at he
  · next hname =>
    cases he
    obtain ⟨d, hd, rfl⟩ := List.mem_map.1 hname
    exact ⟨_, List.mem_append_left _ (List.mem_map_of_mem hd), rfl, rfl⟩
  · split at he
    · next hname =>
      cases he
      obtain ⟨d, hd, rfl⟩ := List.mem_map.1 hname
      obtain ⟨t, ht, hdt⟩ := hderived.exists_of_mem_left hd
      obtain ⟨sources, -, rfl⟩ := compileDerived_eq hdt
      exact ⟨_, List.mem_append_right _ ht, rfl, rfl⟩
    · cases he

end Compiled

/-! ## Columns -/

namespace Compiled

variable (h : Compiled s first c)
include h

theorem column_ids : c.columns.map Column.id = s.columnNames.map (s.columnId first) := by
  rw [h.columns, compileColumns, columnNames, fieldNames, functionNames]
  simp only [List.map_append, List.map_flatMap, List.map_map]
  rfl

/-- The entity that a schema gives to the name of a column is that of a column of the catalog. -/
theorem exists_column {name : ColumnName} {e : Entity} (he : s.columnEntity? first name = some e) :
    ∃ col ∈ c.columns, col.entity = e := by
  rw [h.columns, compileColumns]
  unfold columnEntity? at he
  split at he
  · next hname =>
    cases he
    obtain ⟨d, hd, hname⟩ := List.mem_flatMap.1 hname
    obtain ⟨f, hf, rfl⟩ := List.mem_map.1 hname
    exact ⟨_, List.mem_append_left _ (List.mem_flatMap.2 ⟨d, hd, List.mem_map_of_mem hf⟩), rfl⟩
  · split at he
    · next hname =>
      cases he
      obtain ⟨d, hd, hname⟩ := List.mem_flatMap.1 hname
      obtain ⟨f, hf, rfl⟩ := List.mem_map.1 hname
      exact ⟨_, List.mem_append_right _ (List.mem_flatMap.2 ⟨d, hd, List.mem_map_of_mem hf⟩), rfl⟩
    · cases he

end Compiled

/-! ## Identities -/

/-- A table with the identities that a schema gives to its name. -/
private structure Numbered (s : Schema) (first : Nat) (t : Table) : Prop where
  name : t.name ∈ s.tableNames
  id : t.id = s.tableId first t.name
  creation : ∀ creation, t.creation = some creation →
    t.name ∈ s.derived.map DerivedDefinition.name ∧ creation.id = s.creationId first t.name

/-- Members of a list that have the same number in it are the same. -/
theorem eq_of_number_eq {α : Type} [DecidableEq α] {base : Nat} {xs : List α} {x y : α}
    (hx : x ∈ xs) (h : (⟨base + xs.idxOf x⟩ : Id) = ⟨base + xs.idxOf y⟩) : x = y :=
  (List.idxOf_inj hx).1 (Nat.add_left_cancel (congrArg Id.number h))

/-- Identities of tables come before those of creations, and these before those of columns. -/
private theorem tableId_lt (first : Nat) {name : String} (hname : name ∈ s.tableNames) :
    (s.tableId first name).number < first + 1 + s.tableNames.length := by
  have := List.idxOf_lt_length_iff.2 hname
  simp only [tableId]
  omega

private theorem creationId_mem (first : Nat) {name : String}
    (hname : name ∈ s.derived.map DerivedDefinition.name) :
    first + 1 + s.tableNames.length ≤ (s.creationId first name).number ∧
      (s.creationId first name).number < first + 1 + s.tableNames.length + s.derived.length := by
  have := List.idxOf_lt_length_iff.2 hname
  rw [List.length_map] at this
  simp only [creationId]
  omega

private theorem columnEntity?_eq_some {name : ColumnName} {e : Entity}
    (h : s.columnEntity? first name = some e) :
    name ∈ s.columnNames ∧ e.id = s.columnId first name := by
  unfold columnEntity? at h
  split at h
  · next hname => cases h; exact ⟨List.mem_append_left _ hname, rfl⟩
  · split at h
    · next hname => cases h; exact ⟨List.mem_append_right _ hname, rfl⟩
    · cases h

private theorem columnId_mem (first : Nat) {name : ColumnName} (hname : name ∈ s.columnNames) :
    first + 1 + s.tableNames.length + s.derived.length ≤ (s.columnId first name).number ∧
      (s.columnId first name).number < s.nextId first := by
  have := List.idxOf_lt_length_iff.2 hname
  simp only [columnId, nextId]
  omega

namespace Numbered

variable {t t' : Table} {id : Id}

private theorem range (h : Numbered s first t) (hid : id ∈ t.ids) :
    id.number < first + 1 + s.tableNames.length + s.derived.length := by
  rcases List.mem_cons.1 hid with rfl | hid
  · rw [h.id]
    exact Nat.lt_add_right _ (tableId_lt first h.name)
  · obtain ⟨creation, hc, rfl⟩ := Option.map_eq_some_iff.1 (Option.mem_toList.1 hid)
    obtain ⟨hname, heq⟩ := h.creation creation hc
    rw [heq]
    exact (creationId_mem first hname).2

/-- Tables that share an identity have the same name. -/
private theorem name_eq (h : Numbered s first t) (h' : Numbered s first t') (hid : id ∈ t.ids)
    (hid' : id ∈ t'.ids) : t.name = t'.name := by
  have apart : ∀ {t t' : Table} {creation : Creation}, Numbered s first t → Numbered s first t' →
      t'.creation = some creation → t.id ≠ creation.id := by
    intro t t' creation h h' hc heq
    obtain ⟨hname, hid⟩ := h'.creation creation hc
    have hlt := tableId_lt first h.name
    have hle := (creationId_mem first hname).1
    rw [← h.id, heq, hid] at hlt
    omega
  rcases List.mem_cons.1 hid with rfl | hid
  · rcases List.mem_cons.1 hid' with heq | hid'
    · exact eq_of_number_eq h.name (h.id.symm.trans (heq.trans h'.id))
    · obtain ⟨creation, hc, heq⟩ := Option.map_eq_some_iff.1 (Option.mem_toList.1 hid')
      exact absurd heq.symm (apart h h' hc)
  · obtain ⟨creation, hc, rfl⟩ := Option.map_eq_some_iff.1 (Option.mem_toList.1 hid)
    obtain ⟨hname, hcid⟩ := h.creation creation hc
    rcases List.mem_cons.1 hid' with heq | hid'
    · exact absurd heq.symm (apart h' h hc)
    · obtain ⟨creation', hc', heq⟩ := Option.map_eq_some_iff.1 (Option.mem_toList.1 hid')
      exact eq_of_number_eq hname (hcid.symm.trans (heq.symm.trans (h'.creation creation' hc').2))

private theorem nodup_ids (h : Numbered s first t) : t.ids.Nodup := by
  unfold Table.ids
  cases hc : t.creation with
  | none => exact List.nodup_singleton _
  | some creation =>
    obtain ⟨hname, hid⟩ := h.creation creation hc
    have hlt := tableId_lt first h.name
    have hle := (creationId_mem first hname).1
    refine List.nodup_cons.2 ⟨fun hmem => ?_, List.nodup_singleton _⟩
    rw [← h.id, List.mem_singleton.1 hmem, hid] at hlt
    omega

end Numbered

namespace Compiled

variable (h : Compiled s first c)
include h

private theorem numbered {t : Table} (ht : t ∈ c.tables) : Numbered s first t := by
  have hname : t.name ∈ s.tableNames := by
    rw [← h.table_names]
    exact List.mem_map_of_mem ht
  rcases h.table_cases ht with ⟨d, hd, rfl⟩ | ⟨d, hd, hdt⟩
  · exact ⟨hname, rfl, nofun⟩
  · obtain ⟨sources, -, rfl⟩ := compileDerived_eq hdt
    refine ⟨hname, rfl, fun creation hc => ?_⟩
    cases hc
    exact ⟨List.mem_map_of_mem hd, rfl⟩

private theorem nodup_ids : (c.entities.map Entity.id).Nodup := by
  have hnames : (c.tables.map Table.name).Nodup := h.table_names ▸ h.nodup_tableNames
  rw [Catalog.map_id_entities]
  refine List.nodup_append.2 ⟨List.nodup_flatMap.2 ⟨fun t ht => (h.numbered ht).nodup_ids, ?_⟩, ?_, ?_⟩
  · refine (List.pairwise_map.1 hnames).imp_of_mem fun ht ht' hne id hid hid' => ?_
    exact hne ((h.numbered ht).name_eq (h.numbered ht') hid hid')
  · rw [h.column_ids]
    exact h.nodup_columnNames.map_on fun name hname name' _ heq => eq_of_number_eq hname heq
  · intro id hid id' hid' heq
    obtain ⟨t, ht, hid⟩ := List.mem_flatMap.1 hid
    rw [h.column_ids] at hid'
    obtain ⟨name, hname, rfl⟩ := List.mem_map.1 hid'
    have hlt := (h.numbered ht).range hid
    have hle := (columnId_mem first hname).1
    rw [heq] at hlt
    omega

private theorem creation_resolved {t : Table} {creation : Creation} (ht : t ∈ c.tables)
    (hc : t.creation = some creation) : creation.Resolved c := by
  rcases h.table_cases ht with ⟨d, -, rfl⟩ | ⟨d, -, hdt⟩
  · cases hc
  · obtain ⟨sources, hsources, rfl⟩ := compileDerived_eq hdt
    cases hc
    have hsources := List.mapM_eq_ok_iff.1 hsources
    refine ⟨fun name hname => ?_, fun e he => ?_, fun e he => ?_, nodup_distinct _, nodup_distinct _⟩
    · obtain ⟨e, he, hne⟩ := hsources.exists_of_mem_left hname
      obtain ⟨t, ht, hname, rfl⟩ := h.exists_table (tableEntity?_of_sourceEntity hne)
      exact ⟨t, ht, hname, mem_distinct.2 he⟩
    · obtain ⟨name, hname, hne⟩ := hsources.exists_of_mem_right (mem_distinct.1 he)
      obtain ⟨t, ht, rfl, rfl⟩ := h.exists_table (tableEntity?_of_sourceEntity hne)
      exact ⟨t, ht, rfl, hname⟩
    · obtain ⟨name, -, hne⟩ := List.mem_filterMap.1 (mem_distinct.1 he)
      exact h.exists_column hne

private theorem column_resolved {col : Column} (hcol : col ∈ c.columns) : col.Resolved c := by
  obtain ⟨derived, hderived, htables⟩ := h.tables
  rw [h.columns] at hcol
  rcases List.mem_append.1 hcol with hcol | hcol
  · obtain ⟨d, hd, hcol⟩ := List.mem_flatMap.1 hcol
    obtain ⟨f, -, rfl⟩ := List.mem_map.1 hcol
    exact ⟨⟨s.compileTable first d, htables ▸ List.mem_append_left _ (List.mem_map_of_mem hd), rfl, rfl⟩,
      nofun, .nil⟩
  · obtain ⟨d, hd, hcol⟩ := List.mem_flatMap.1 hcol
    obtain ⟨f, -, rfl⟩ := List.mem_map.1 hcol
    obtain ⟨t, ht, hdt⟩ := hderived.exists_of_mem_left hd
    obtain ⟨sources, -, rfl⟩ := compileDerived_eq hdt
    refine ⟨⟨_, htables ▸ List.mem_append_right _ ht, rfl, rfl⟩, fun e he => ?_, ?_⟩
    · obtain ⟨name, -, hne⟩ := List.mem_filterMap.1 he
      exact h.exists_column hne
    · refine (nodup_distinct _).filterMap fun name name' e he he' => ?_
      obtain ⟨hname, hid⟩ := columnEntity?_eq_some he
      obtain ⟨-, hid'⟩ := columnEntity?_eq_some he'
      exact eq_of_number_eq hname (hid.symm.trans hid')

end Compiled

/-- A schema compiles to a well-formed catalog. -/
theorem wellFormed_of_compile (h : s.compile first = .ok c) : c.WellFormed :=
  have h := compiled_of_compile h
  ⟨h.nodup_ids, h.table_names ▸ h.nodup_tableNames, fun _ ht _ hc => h.creation_resolved ht hc,
    fun _ hcol => h.column_resolved hcol⟩

/-- The identities of a catalog lie below the first one that is free. -/
theorem id_lt_of_compile (h : s.compile first = .ok c) {e : Entity} (he : e ∈ c.entities) :
    e.id.number < s.nextId first := by
  have h := compiled_of_compile h
  have hid : e.id ∈ c.entities.map Entity.id := List.mem_map_of_mem he
  rw [Catalog.map_id_entities, List.mem_append] at hid
  rcases hid with hid | hid
  · obtain ⟨t, ht, hid⟩ := List.mem_flatMap.1 hid
    have hlt := (h.numbered ht).range hid
    unfold nextId
    omega
  · rw [h.column_ids] at hid
    obtain ⟨name, hname, hid⟩ := List.mem_map.1 hid
    rw [← hid]
    exact (columnId_mem first hname).2

end Schema

end Provenance
