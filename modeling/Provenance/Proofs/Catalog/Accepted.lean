import Provenance.Proofs.Catalog.Named
import Provenance.Proofs.Hierarchy

/-!
# Schemas that compile

A schema compiles exactly if it is well formed (`Schema.exists_compile_iff`): names are single among those of
their sort, every table that an approach names is declared, whether before or after, and hierarchies are
acyclic. Each step of the compilation tests one of these (`Schema.requireSingle_eq_ok_iff`,
`Schema.exists_compileDerived_iff`, `Schema.foldlM_addHierarchy_eq_ok_iff`).
-/

namespace Provenance

/-- A schema whose names are single, whose sources are declared and whose hierarchies are acyclic. -/
structure Schema.WellFormed (s : Schema) : Prop where
  tables : s.tableNames.Nodup
  fields : ∀ t ∈ s.tables, (t.fields.map FieldDefinition.name).Nodup
  functions : ∀ t ∈ s.derived, (t.columns.map FunctionDefinition.name).Nodup
  /-- The tables that an approach names are declared somewhere in the schema. -/
  sources : ∀ t ∈ s.derived, ∀ name ∈ t.creation.sourceTables, name ∈ s.tableNames
  hierarchies : (s.hierarchies.map HierarchyDefinition.name).Nodup
  acyclic : ∀ h ∈ s.hierarchies, h.Acyclic

theorem Approach.sourceTables_ne_nil (a : Approach) : a.sourceTables ≠ [] := by
  cases a <;> exact List.cons_ne_nil _ _

namespace Schema

variable {s : Schema} {first : Nat} {d : DerivedDefinition} {name : String}

/-! ## Names of columns -/

/-- The names of all tables with those of their columns. -/
def headers (s : Schema) : List (String × List String) :=
  s.tables.map (fun t => (t.name, t.fields.map FieldDefinition.name)) ++
    s.derived.map fun t => (t.name, t.columns.map FunctionDefinition.name)

theorem map_fst_headers (s : Schema) : s.headers.map Prod.fst = s.tableNames := by
  simp [headers, tableNames, Function.comp_def]

theorem columnNames_eq (s : Schema) :
    s.columnNames = s.headers.flatMap fun header => header.2.map (ColumnName.mk header.1) := by
  simp [headers, columnNames, fieldNames, functionNames, List.flatMap_map, Function.comp_def]

/-- As names of tables are single, names of columns are if those of each table are. -/
theorem nodup_columnNames_iff (h : s.tableNames.Nodup) :
    s.columnNames.Nodup ↔ (∀ t ∈ s.tables, (t.fields.map FieldDefinition.name).Nodup) ∧
      ∀ t ∈ s.derived, (t.columns.map FunctionDefinition.name).Nodup := by
  have hheaders : s.columnNames.Nodup ↔ ∀ header ∈ s.headers, header.2.Nodup := by
    rw [columnNames_eq, List.nodup_flatMap]
    constructor
    · intro ⟨hsingle, _⟩ header hheader
      exact (hsingle header hheader).of_map _
    · intro hsingle
      have hinjective : ∀ table, Function.Injective (ColumnName.mk table) := fun _ _ _ heq =>
        congrArg ColumnName.column heq
      refine ⟨fun header hheader => (hsingle header hheader).map (hinjective _), ?_⟩
      -- The name of a column starts with that of its table, so different tables share none.
      rw [← map_fst_headers] at h
      refine (List.pairwise_map.1 h).imp fun hne name hname hname' => ?_
      obtain ⟨column, -, rfl⟩ := List.mem_map.1 hname
      obtain ⟨column', -, heq⟩ := List.mem_map.1 hname'
      exact hne (congrArg ColumnName.table heq).symm
  rw [hheaders]
  simp [headers, or_imp, forall_and]

/-! ## Sources -/

theorem isSome_tableEntity?_iff : (s.tableEntity? first name).isSome ↔ name ∈ s.tableNames := by
  unfold tableEntity? tableNames
  rw [List.mem_append]
  split
  · next h => simp [h]
  · next h =>
    split
    · next h' => simp [h']
    · next h' => simp [h, h']

/-- A derived table compiles if the tables that it reads are declared. -/
theorem exists_compileDerived_iff :
    (∃ t, s.compileDerived first d = .ok t) ↔ ∀ name ∈ d.creation.sourceTables, name ∈ s.tableNames := by
  constructor
  · rintro ⟨t, ht⟩ name hname
    obtain ⟨sources, hsources, -⟩ := compileDerived_eq ht
    obtain ⟨e, -, he⟩ := (List.mapM_eq_ok_iff.1 hsources).exists_of_mem_left hname
    exact isSome_tableEntity?_iff.1 (Option.isSome_of_eq_some (tableEntity?_of_sourceEntity he))
  · intro h
    have hsource : ∀ name ∈ d.creation.sourceTables, ∃ e, s.sourceEntity first d name = .ok e := by
      intro name hname
      obtain ⟨e, he⟩ := Option.isSome_iff_exists.1 (isSome_tableEntity?_iff.2 (h name hname))
      exact ⟨e, by rw [sourceEntity, he]⟩
    obtain ⟨sources, hsources⟩ := List.exists_forall₂ hsource
    -- Every approach names a table, so what it is found to read is not empty.
    obtain ⟨name, rest, hnames⟩ := List.exists_cons_of_ne_nil d.creation.sourceTables_ne_nil
    have hne : distinct sources ≠ [] := by
      rw [hnames] at hsources
      obtain ⟨e, es, -, -, rfl⟩ := List.forall₂_cons_left_iff.1 hsources
      exact List.ne_nil_of_mem (mem_distinct.2 List.mem_cons_self)
    refine ⟨derivedTable s first d sources, ?_⟩
    unfold compileDerived
    rw [List.mapM_eq_ok_iff.2 hsources]
    exact if_neg fun hempty => hne (List.isEmpty_iff.1 hempty)

/-! ## Hierarchies -/

theorem addHierarchy_eq_ok_iff {hierarchies hierarchies' : List Hierarchy} {d : HierarchyDefinition} :
    addHierarchy hierarchies d = .ok hierarchies' ↔
      d.Acyclic ∧ d.name ∉ hierarchies.map Hierarchy.name ∧
        hierarchies' = hierarchies ++ [Hierarchy.ofDefinition d] := by
  unfold addHierarchy
  rw [Except.bind_eq_ok_iff]
  simp only [Hierarchy.compile_eq_ok_iff]
  constructor
  · rintro ⟨_, ⟨hacyclic, rfl⟩, h⟩
    split at h
    · cases h
    · next hnew => exact ⟨hacyclic, hnew, (Except.ok.inj h).symm⟩
  · rintro ⟨hacyclic, hnew, rfl⟩
    exact ⟨_, ⟨hacyclic, rfl⟩, if_neg hnew⟩

/-- Hierarchies are added if they are acyclic and have names that are single and new. -/
theorem foldlM_addHierarchy_eq_ok_iff {ds : List HierarchyDefinition}
    {hierarchies hierarchies' : List Hierarchy} :
    ds.foldlM addHierarchy hierarchies = .ok hierarchies' ↔
      (∀ d ∈ ds, d.Acyclic) ∧ (ds.map HierarchyDefinition.name).Nodup ∧
        (∀ d ∈ ds, d.name ∉ hierarchies.map Hierarchy.name) ∧
        hierarchies' = hierarchies ++ ds.map Hierarchy.ofDefinition := by
  induction ds generalizing hierarchies with
  | nil => simp [pure, Except.pure, eq_comm]
  | cons d ds ih =>
    have hname : (Hierarchy.ofDefinition d).name = d.name := rfl
    rw [List.foldlM_cons, Except.bind_eq_ok_iff]
    simp only [addHierarchy_eq_ok_iff, ih, List.forall_mem_cons, List.map_cons, List.nodup_cons]
    constructor
    · rintro ⟨_, ⟨hacyclic, hnew, rfl⟩, hacyclics, hnodup, hnews, rfl⟩
      simp only [List.map_append, List.map_singleton, List.mem_append, List.mem_singleton, not_or, hname]
        at hnews
      refine ⟨⟨hacyclic, hacyclics⟩, ⟨?_, hnodup⟩, ⟨hnew, fun d' hd' => (hnews d' hd').1⟩, by simp⟩
      intro hmem
      obtain ⟨d', hd', heq⟩ := List.mem_map.1 hmem
      exact (hnews d' hd').2 heq
    · rintro ⟨⟨hacyclic, hacyclics⟩, ⟨hapart, hnodup⟩, ⟨hnew, hnews⟩, rfl⟩
      refine ⟨_, ⟨hacyclic, hnew, rfl⟩, hacyclics, hnodup, fun d' hd' => ?_, by simp⟩
      simp only [List.map_append, List.map_singleton, List.mem_append, List.mem_singleton, not_or, hname]
      exact ⟨hnews d' hd', fun heq => hapart (heq ▸ List.mem_map_of_mem hd')⟩

/-! ## Compilation -/

/-- The catalog of a schema, given its derived tables. -/
def catalogOf (s : Schema) (first : Nat) (derived : List Table) : Catalog where
  id := ⟨first⟩
  name := s.name
  fingerprint := s.fingerprint
  tables := s.tables.map (s.compileTable first) ++ derived
  columns := s.compileColumns first
  hierarchies := s.hierarchies.map Hierarchy.ofDefinition

/-- What a schema compiles to, and when. -/
theorem compile_eq_ok_iff {c : Catalog} : s.compile first = .ok c ↔
    s.tableNames.Nodup ∧ s.columnNames.Nodup ∧
      (∃ derived, List.Forall₂ (fun d t => s.compileDerived first d = .ok t) s.derived derived ∧
        c = s.catalogOf first derived) ∧
      (∀ d ∈ s.hierarchies, d.Acyclic) ∧ (s.hierarchies.map HierarchyDefinition.name).Nodup := by
  unfold compile
  simp only [Except.bind_eq_ok_iff, requireSingle_eq_ok_iff, List.mapM_eq_ok_iff,
    foldlM_addHierarchy_eq_ok_iff, Except.pure_eq_ok_iff]
  constructor
  · rintro ⟨_, htables, _, hcolumns, derived, hderived, _, ⟨hacyclic, hnodup, -, rfl⟩, rfl⟩
    exact ⟨htables, hcolumns, ⟨derived, hderived, rfl⟩, hacyclic, hnodup⟩
  · rintro ⟨htables, hcolumns, ⟨derived, hderived, rfl⟩, hacyclic, hnodup⟩
    exact ⟨(), htables, (), hcolumns, derived, hderived, _,
      ⟨hacyclic, hnodup, fun _ _ => List.not_mem_nil, rfl⟩, rfl⟩

/-- A schema compiles exactly if it is well formed. -/
theorem exists_compile_iff (s : Schema) (first : Nat) : (∃ c, s.compile first = .ok c) ↔ s.WellFormed := by
  simp only [compile_eq_ok_iff]
  constructor
  · rintro ⟨c, htables, hcolumns, ⟨derived, hderived, -⟩, hacyclic, hnodup⟩
    obtain ⟨hfields, hfunctions⟩ := (nodup_columnNames_iff htables).1 hcolumns
    refine ⟨htables, hfields, hfunctions, fun t ht => ?_, hnodup, hacyclic⟩
    obtain ⟨compiled, -, hcompiled⟩ := hderived.exists_of_mem_left ht
    exact exists_compileDerived_iff.1 ⟨compiled, hcompiled⟩
  · intro h
    have hcolumns := (nodup_columnNames_iff h.tables).2 ⟨h.fields, h.functions⟩
    obtain ⟨derived, hderived⟩ := List.exists_forall₂ fun t ht =>
      exists_compileDerived_iff.2 (h.sources t ht)
    exact ⟨_, h.tables, hcolumns, ⟨derived, hderived, rfl⟩, h.acyclic, h.hierarchies⟩

end Schema

end Provenance
