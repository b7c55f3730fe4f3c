import Provenance.Error
import Provenance.Hierarchy

/-!
# Catalogs

A catalog is a schema whose tables, creations and columns have identities, and whose names have been looked
up. Constructors keep fields with supplied tables and functions with derived ones.
-/

namespace Provenance

/-- How the rows of a derived table are made, with the entities that its approach names. Columns that the
schema does not have are left out: they are noticed when the table is derived. -/
structure Creation where
  id : Id
  approach : Approach
  sourceTables : List Entity
  sourceColumns : List Entity

/-- The creation as an entity. -/
def Creation.entity (c : Creation) : Entity := ⟨.tableCreation, c.id⟩

/-- A table. Derived tables have a creation. -/
structure Table where
  id : Id
  name : String
  creation : Option Creation

namespace Table

/-- A table that records are supplied for. -/
def database (id : Id) (name : String) : Table := ⟨id, name, none⟩

/-- A table that is derived from at least one other. -/
def derive (id : Id) (name : String) (creation : Creation) : Except Error Table :=
  if creation.sourceTables.isEmpty then .error (.violation (.noSources name))
  else .ok ⟨id, name, some creation⟩

/-- Whether the table is supplied or derived. -/
def origin (t : Table) : Origin := if t.creation.isSome then .derived else .database

/-- The tables that the table is derived from. -/
def sources (t : Table) : List Entity := (t.creation.map Creation.sourceTables).getD []

/-- The table as an entity. -/
def entity (t : Table) : Entity :=
  ⟨if t.creation.isSome then .derivedTable else .databaseTable, t.id⟩

end Table

/-- The text that a function was written as. -/
structure FunctionText where
  text : String
  language : String
  deriving DecidableEq

/-- What a column holds. -/
inductive ColumnKind where
  /-- Supplied payloads of a data type. -/
  | field (type : DataType)
  /-- Computed payloads, and the columns that the expression reads so far as the schema has them. -/
  | function (text : FunctionText) (expr : Expr) (references : List Entity)

/-- A column of a table. -/
structure Column where
  id : Id
  name : String
  table : Id
  kind : ColumnKind

namespace Column

/-- A column of supplied payloads. -/
def field (id : Id) (table : Table) (name : String) (type : DataType) : Except Error Column :=
  if table.creation.isSome then .error (.violation (.fieldOfDerived name table.name))
  else .ok ⟨id, name, table.id, .field type⟩

/-- A column of computed payloads. -/
def function (id : Id) (table : Table) (name : String) (text : FunctionText) (expr : Expr)
    (references : List Entity) : Except Error Column :=
  if table.creation.isSome then .ok ⟨id, name, table.id, .function text expr references⟩
  else .error (.violation (.functionOfDatabase name table.name))

/-- The expression of a computed column. -/
def expr? (c : Column) : Option Expr :=
  match c.kind with
  | .function _ expr _ => some expr
  | .field _ => none

/-- The columns that the expression of a computed column reads. -/
def references (c : Column) : List Entity :=
  match c.kind with
  | .function _ _ references => references
  | .field _ => []

/-- The column as an entity. -/
def entity (c : Column) : Entity :=
  match c.kind with
  | .field _ => ⟨.databaseField, c.id⟩
  | .function .. => ⟨.function, c.id⟩

end Column

/-- A schema with identities. -/
structure Catalog where
  id : Id
  name : String
  fingerprint : String
  tables : List Table
  columns : List Column
  hierarchies : List Hierarchy

namespace Catalog

/-- The table with a name. -/
def table? (c : Catalog) (name : String) : Option Table := c.tables.find? fun t => t.name = name

/-- The table with a name; it is an error if there is none. -/
def table (c : Catalog) (name : String) : Except Error Table :=
  match c.table? name with
  | some t => .ok t
  | none => .error (.unknownTable name)

/-- The table with an identity. -/
def tableById? (c : Catalog) (id : Id) : Option Table := c.tables.find? fun t => t.id = id

/-- The table whose creation has an identity. -/
def tableOfCreation? (c : Catalog) (id : Id) : Option Table :=
  c.tables.find? fun t => t.creation.any fun creation => creation.id = id

/-- The creation with an identity. -/
def creationById? (c : Catalog) (id : Id) : Option Creation := do (← c.tableOfCreation? id).creation

/-- The columns of a table in the order of their declaration. -/
def columnsOf (c : Catalog) (table : Id) : List Column := c.columns.filter fun col => col.table = table

/-- The column with a name in the table with a name. -/
def column? (c : Catalog) (name : ColumnName) : Option Column := do
  let table ← c.table? name.table
  (c.columnsOf table.id).find? fun col => col.name = name.column

/-- Whether there is a column with a name in the table with a name. -/
def hasColumn (c : Catalog) (name : ColumnName) : Bool := (c.column? name).isSome

/-- The column with an identity. -/
def columnById? (c : Catalog) (id : Id) : Option Column := c.columns.find? fun col => col.id = id

/-- The hierarchy with a name. -/
def hierarchy (c : Catalog) (name : String) : Except Error Hierarchy :=
  match c.hierarchies.find? fun h => h.name = name with
  | some h => .ok h
  | none => .error (.unknownHierarchy name)

/-- The entities of the tables and of their creations. -/
def tableEntities (c : Catalog) : List Entity :=
  c.tables.flatMap fun t => t.entity :: (t.creation.map Creation.entity).toList

/-- All entities of the catalog. -/
def entities (c : Catalog) : List Entity := c.tableEntities ++ c.columns.map Column.entity

/-- Whether an entity is one of the catalog. -/
def contains (c : Catalog) (e : Entity) : Bool := decide (e ∈ c.entities)

end Catalog

end Provenance
