import Provenance.Catalog.Basic
import Provenance.Schema.Encoding
import Provenance.Sha256

/-!
# From a schema to its catalog

Names have to be single, the tables that an approach names have to exist, and hierarchies must not be
cyclic. Definitions may refer to each other in any order, since an identity depends only on the place of a
name among all names of its sort.
-/

namespace Provenance

/-- The first member of a list that stands in it before. -/
def firstRepeat? [DecidableEq α] (xs : List α) : Option α :=
  go [] xs
where
  /-- The first member of the rest that stands in the rest before it or among those seen. -/
  go (seen : List α) : List α → Option α
    | [] => none
    | x :: rest => if x ∈ seen then some x else go (x :: seen) rest

namespace Schema

/-- The names of all tables, supplied ones first. -/
def tableNames (s : Schema) : List String :=
  s.tables.map TableDefinition.name ++ s.derived.map DerivedDefinition.name

/-- The names of all supplied columns. -/
def fieldNames (s : Schema) : List ColumnName :=
  s.tables.flatMap fun t => t.fields.map fun f => ⟨t.name, f.name⟩

/-- The names of all computed columns. -/
def functionNames (s : Schema) : List ColumnName :=
  s.derived.flatMap fun t => t.columns.map fun f => ⟨t.name, f.name⟩

/-- The names of all columns, supplied ones first. -/
def columnNames (s : Schema) : List ColumnName := s.fieldNames ++ s.functionNames

/-! ## Identities

The catalog has the first identity that is free; tables, creations and columns have the next ones. -/

/-- The identity of a table. -/
def tableId (s : Schema) (first : Nat) (name : String) : Id :=
  ⟨first + 1 + s.tableNames.idxOf name⟩

/-- The identity of the creation of a derived table. -/
def creationId (s : Schema) (first : Nat) (name : String) : Id :=
  ⟨first + 1 + s.tableNames.length + (s.derived.map DerivedDefinition.name).idxOf name⟩

/-- The identity of a column. -/
def columnId (s : Schema) (first : Nat) (name : ColumnName) : Id :=
  ⟨first + 1 + s.tableNames.length + s.derived.length + s.columnNames.idxOf name⟩

/-- The first identity that is free after all of these. -/
def nextId (s : Schema) (first : Nat) : Nat :=
  first + 1 + s.tableNames.length + s.derived.length + s.columnNames.length

/-- The entity of the table with a name. -/
def tableEntity? (s : Schema) (first : Nat) (name : String) : Option Entity :=
  if name ∈ s.tables.map TableDefinition.name then some ⟨.databaseTable, s.tableId first name⟩
  else if name ∈ s.derived.map DerivedDefinition.name then some ⟨.derivedTable, s.tableId first name⟩
  else none

/-- The entity of the column with a name. -/
def columnEntity? (s : Schema) (first : Nat) (name : ColumnName) : Option Entity :=
  if name ∈ s.fieldNames then some ⟨.databaseField, s.columnId first name⟩
  else if name ∈ s.functionNames then some ⟨.function, s.columnId first name⟩
  else none

/-! ## Tables and columns -/

/-- A supplied table of the catalog. -/
def compileTable (s : Schema) (first : Nat) (t : TableDefinition) : Table :=
  .database (s.tableId first t.name) t.name

/-- A supplied column of the catalog. -/
def compileField (s : Schema) (first : Nat) (t : TableDefinition) (f : FieldDefinition) : Column :=
  ⟨s.columnId first ⟨t.name, f.name⟩, f.name, s.tableId first t.name, .field f.type⟩

/-- The entity of a table that a derived one reads. -/
def sourceEntity (s : Schema) (first : Nat) (t : DerivedDefinition) (source : String) :
    Except Error Entity :=
  match s.tableEntity? first source with
  | some e => .ok e
  | none => .error (.invalid (.unknownSource t.name source))

/-- A derived table of the catalog. -/
def compileDerived (s : Schema) (first : Nat) (t : DerivedDefinition) : Except Error Table := do
  let sources ← t.creation.sourceTables.mapM (s.sourceEntity first t)
  let columns := t.creation.sourceColumns.filterMap (s.columnEntity? first)
  Table.derive (s.tableId first t.name) t.name
    ⟨s.creationId first t.name, t.creation, distinct sources, distinct columns⟩

/-- A computed column of the catalog. A function without a text is shown by its name. -/
def compileFunction (s : Schema) (first : Nat) (t : DerivedDefinition) (f : FunctionDefinition) :
    Column :=
  ⟨s.columnId first ⟨t.name, f.name⟩, f.name, s.tableId first t.name,
    .function ⟨f.text.getD f.name, f.language⟩ f.expr
      (f.expr.columnParams.filterMap (s.columnEntity? first))⟩

/-- The columns of the catalog, supplied ones first, in the order of their declaration. -/
def compileColumns (s : Schema) (first : Nat) : List Column :=
  s.tables.flatMap (fun t => t.fields.map (s.compileField first t)) ++
    s.derived.flatMap fun t => t.columns.map (s.compileFunction first t)

/-- One more hierarchy of the catalog. -/
def addHierarchy (hierarchies : List Hierarchy) (d : HierarchyDefinition) :
    Except Error (List Hierarchy) := do
  let h ← Hierarchy.compile d
  if d.name ∈ hierarchies.map Hierarchy.name then .error (.invalid (.duplicateHierarchy d.name))
  else .ok (hierarchies ++ [h])

/-- Accepts a list without repetitions. -/
def requireSingle [DecidableEq α] (flaw : α → Flaw) (names : List α) : Except Error Unit :=
  match firstRepeat? names with
  | some name => .error (.invalid (flaw name))
  | none => .ok ()

/-- The fingerprint of a schema: the digest of its canonical text. -/
def fingerprint (s : Schema) : String := Sha256.hexDigest s.canonical

/-- The catalog of a schema, its identities starting from the given one. -/
def compile (s : Schema) (first : Nat) : Except Error Catalog := do
  requireSingle .duplicateTable s.tableNames
  requireSingle .duplicateColumn s.columnNames
  let derived ← s.derived.mapM (s.compileDerived first)
  let hierarchies ← s.hierarchies.foldlM addHierarchy []
  pure
    { id := ⟨first⟩
      name := s.name
      fingerprint := s.fingerprint
      tables := s.tables.map (s.compileTable first) ++ derived
      columns := s.compileColumns first
      hierarchies }

end Schema

end Provenance
