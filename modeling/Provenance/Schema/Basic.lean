import Provenance.Expr.Basic

/-!
# Schemas

A schema declares the tables that records are supplied for, the hierarchies that texts are tested against,
and the tables that are derived: how their rows are made from other tables and the function of each
column.
-/

namespace Provenance

/-- A column of a supplied table. -/
structure FieldDefinition where
  name : String
  type : DataType

/-- A table that records are supplied for. -/
structure TableDefinition where
  name : String
  fields : List FieldDefinition

/-- One member of a hierarchy right below another. -/
structure HierarchyLink where
  parent : String
  child : String
  deriving DecidableEq

/-- Members of a hierarchy and who stands below whom. -/
structure HierarchyDefinition where
  name : String
  links : List HierarchyLink

/-- What a join does with a row that finds no partner. -/
inductive JoinKind where
  /-- The row is dropped. -/
  | inner
  /-- The row is kept, and the place of its partner stays empty. -/
  | leftOuter
  deriving DecidableEq, Repr

namespace JoinKind

/-- The name of a kind of join. -/
def name : JoinKind → String
  | .inner => "inner"
  | .leftOuter => "left_outer"

/-- The kind of join with a name. -/
def ofName? (name : String) : Option JoinKind :=
  [JoinKind.inner, .leftOuter].find? fun kind => kind.name == name

theorem ofName?_name (kind : JoinKind) : ofName? kind.name = some kind := by cases kind <;> decide

end JoinKind

/-- A column of a table already joined, and the column of the next table that must equal it. -/
structure JoinKey where
  left : ColumnName
  right : String

/-- The next table of a join. -/
structure JoinStep where
  table : String
  kind : JoinKind
  on : List JoinKey

/-- How the rows of a derived table are made from the rows of its source tables. -/
inductive Approach where
  /-- The rows for which a predicate holds. -/
  | filter (source : String) (predicate : Expr)
  /-- Every row. -/
  | enrichment (source : String)
  /-- The rows of a table, joined with one table after the other on equal keys. -/
  | join (base : String) (steps : List JoinStep)
  /-- One row for every group of rows with equal values in some columns. -/
  | group (source : String) (keys : List ColumnName)

namespace Approach

/-- The tables that rows are made from, in the order in which they are read. -/
def sourceTables : Approach → List String
  | .filter source _ | .enrichment source | .group source _ => [source]
  | .join base steps => base :: steps.map JoinStep.table

/-- The columns that decide which rows are made: those of the predicate, the keys or the grouping. -/
def sourceColumns : Approach → List ColumnName
  | .filter _ predicate => predicate.columnParams
  | .enrichment _ => []
  | .join _ steps => steps.flatMap fun step => step.on.flatMap fun key => [key.left, ⟨step.table, key.right⟩]
  | .group _ keys => keys

/-- The name of an approach. -/
def name : Approach → String
  | .filter .. => "filter"
  | .enrichment _ => "enrichment"
  | .join .. => "join"
  | .group .. => "aggregate"

end Approach

/-- A column of a derived table: its function, and the text and language it was written in. -/
structure FunctionDefinition where
  name : String
  text : Option String
  language : String
  expr : Expr

/-- A table that is derived from others. -/
structure DerivedDefinition where
  name : String
  description : Option String
  creation : Approach
  columns : List FunctionDefinition

/-- A schema. -/
structure Schema where
  name : String
  tables : List TableDefinition
  hierarchies : List HierarchyDefinition
  derived : List DerivedDefinition

end Provenance
