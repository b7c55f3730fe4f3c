import Provenance.Entity.Basic

/-!
# Edges

An edge leads from an entity to one that it was made from. Each kind of edge fixes which kinds of entities
it links.
-/

namespace Provenance

namespace Edge

/-- The kinds of edges. -/
inductive Kind where
  /-- From a function column to a column it reads. -/
  | functionColumn
  /-- From a derived row to a row it was built from. -/
  | rowSource
  /-- From a computed value to a value that was consulted for it. -/
  | valueSource
  /-- From the creation of a table to a table it reads. -/
  | creationTable
  /-- From the creation of a table to a column of its predicate, keys or grouping. -/
  | creationColumn
  deriving DecidableEq, Repr, Hashable

namespace Kind

/-- The name of a kind. -/
def name : Kind → String
  | .functionColumn => "function_column_reference"
  | .rowSource => "derived_row_source_reference"
  | .valueSource => "evaluated_function_source_value"
  | .creationTable => "table_creation_source_table"
  | .creationColumn => "table_creation_function_column"

/-- All kinds in their order. -/
def all : List Kind := [.functionColumn, .rowSource, .valueSource, .creationTable, .creationColumn]

/-- The kind with a name. -/
def ofName? (name : String) : Option Kind := all.find? fun kind => kind.name == name

/-- Whether an entity of a kind may own an edge. -/
def acceptsOwner : Kind → Entity.Kind → Bool
  | .functionColumn, owner => owner == .function
  | .rowSource, owner => owner == .derivedRow
  | .valueSource, owner => owner == .evaluatedValue
  | .creationTable, owner | .creationColumn, owner => owner == .tableCreation

/-- Whether an edge may lead to an entity of a kind. -/
def acceptsTarget : Kind → Entity.Kind → Bool
  | .functionColumn, target | .creationColumn, target => target == .databaseField || target == .function
  | .rowSource, target => target == .databaseRow || target == .derivedRow
  | .valueSource, target => target == .databaseValue || target == .evaluatedValue
  | .creationTable, target => target == .databaseTable || target == .derivedTable

theorem ofName?_name (kind : Kind) : ofName? kind.name = some kind := by cases kind <;> decide

end Kind

end Edge

/-- An edge of the lineage. -/
structure Edge where
  owner : Entity
  kind : Edge.Kind
  target : Entity
  deriving DecidableEq, Hashable

end Provenance
