import Provenance.Id

/-!
# Entities

Everything that an edge may link is named by its kind and its identifier. Definitional entities belong to
a snapshot of a schema, the others to a trail.
-/

namespace Provenance

namespace Entity

/-- The kinds of entities. -/
inductive Kind where
  | databaseTable
  | derivedTable
  | tableCreation
  | databaseField
  | function
  | populatedTable
  | evaluatedTable
  | databaseRow
  | derivedRow
  | databaseValue
  | evaluatedValue
  deriving DecidableEq, Repr, Hashable

namespace Kind

/-- The name of a kind. -/
def name : Kind → String
  | .databaseTable => "database_table"
  | .derivedTable => "derived_table"
  | .tableCreation => "table_creation_function"
  | .databaseField => "database_field"
  | .function => "function"
  | .populatedTable => "populated_database_table"
  | .evaluatedTable => "evaluated_derived_table"
  | .databaseRow => "database_row"
  | .derivedRow => "derived_table_row"
  | .databaseValue => "database_column_value"
  | .evaluatedValue => "evaluated_function"

/-- All kinds. -/
def all : List Kind :=
  [.databaseTable, .derivedTable, .tableCreation, .databaseField, .function, .populatedTable,
    .evaluatedTable, .databaseRow, .derivedRow, .databaseValue, .evaluatedValue]

/-- The kind with a name. -/
def ofName? (name : String) : Option Kind := all.find? fun kind => kind.name == name

/-- Whether entities of a kind belong to a snapshot of a schema and not to a trail. -/
def isDefinitional : Kind → Bool
  | .databaseTable | .derivedTable | .tableCreation | .databaseField | .function => true
  | _ => false

theorem ofName?_name (kind : Kind) : ofName? kind.name = some kind := by cases kind <;> decide

end Kind

end Entity

/-- An entity of a snapshot or a trail. -/
structure Entity where
  kind : Entity.Kind
  id : Id
  deriving DecidableEq, Hashable

namespace Entity

/-- The entity as it is shown in messages. -/
def text (e : Entity) : String := e.kind.name ++ ":" ++ e.id.text

end Entity

/-- Which side of the lineage a materialized thing is on: supplied by a database table or computed by a
derived one. Tables, their rows and their values agree in it. -/
inductive Origin where
  | database
  | derived
  deriving DecidableEq, Repr

namespace Origin

/-- The kind of a materialized table. -/
def tableKind : Origin → Entity.Kind
  | .database => .populatedTable
  | .derived => .evaluatedTable

/-- The kind of a row. -/
def rowKind : Origin → Entity.Kind
  | .database => .databaseRow
  | .derived => .derivedRow

/-- The kind of a value. -/
def valueKind : Origin → Entity.Kind
  | .database => .databaseValue
  | .derived => .evaluatedValue

end Origin

end Provenance
