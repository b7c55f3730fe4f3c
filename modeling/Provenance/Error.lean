import Provenance.Edge.Basic
import Provenance.Expr.Basic

/-!
# What can go wrong

Every error is a cause. Its code, whether a caller may go on after it, and its wording are functions of the
cause.
-/

namespace Provenance

/-- A value that is not of the kind asked for. -/
inductive Mismatch where
  /-- A predicate that is neither true nor false. -/
  | predicate (value : Scalar)
  /-- A raw value that does not read as a data type. -/
  | raw (value : Json) (type : DataType)
  | comparison (left right : Scalar)
  | arithmetic (op : ArithOp) (left right : Scalar)
  | negation (value : Scalar)
  | argumentCount (function : String) (expected given : Nat)
  | argument (function : String) (value : Scalar)
  /-- A membership test on something other than a text. -/
  | membership (value : Scalar)
  /-- A logical operand that is no truth value. -/
  | condition (value : Scalar)
  | mixedAggregate (func : AggregateFn) (first other : Option DataType)
  | nonNumericAggregate (func : AggregateFn) (value : Scalar)
  /-- A payload in a field of another data type. -/
  | field (value : Scalar) (type : DataType) (column : String)
  /-- A mismatch in a field of a supplied record. -/
  | record (table column : String) (row : Nat) (cause : Mismatch)

/-- A computation whose result is out of range. -/
inductive Overflow where
  | arithmetic (op : ArithOp) (left right : Scalar)
  | negation (value : Integer)
  | absolute (value : Integer)
  | averageTotal (count : Nat)
  | average

/-- The documents that a run is set up from. -/
inductive DocumentKind where
  | schema
  | settings
  | sourceData
  deriving DecidableEq, Repr

/-- The name of a kind of document. -/
def DocumentKind.name : DocumentKind → String
  | .schema => "schema definition"
  | .settings => "engine config"
  | .sourceData => "source data"

/-- What is wrong with a definition. -/
inductive Flaw where
  /-- A document that cannot be read. -/
  | unreadable (kind : DocumentKind)
  | unknownPolicy (text : String)
  | unreadableSetting (key value : String)
  | duplicateTable (table : String)
  | duplicateColumn (column : ColumnName)
  | duplicateHierarchy (hierarchy : String)
  | unknownSource (table source : String)
  | cyclicHierarchy (hierarchy member : String)
  | repeatedJoin (table : String)
  | missingArgument (func : AggregateFn)
  /-- A column that is neither grouped by nor aggregated. -/
  | ungrouped (column : ColumnName)

/-- A rule of the entities that a caller broke. -/
inductive Violation where
  | noSources (table : String)
  | fieldOfDerived (column table : String)
  | functionOfDatabase (column table : String)
  | foreignRow (row populated : Id)
  | foreignColumn (column : String) (populated : Id)
  | variantMismatch (column : String) (row : Id)
  | readBeforeMaterialized (table : String)
  | columnNotInSnapshot (column : Id)
  | databaseOwnsFunction (table column : String)
  | derivedOwnsField (table column : String)
  | notMaterialized (table : String)

/-- What went wrong. -/
inductive Error where
  /-- A column that the sources at hand do not have. -/
  | unresolvedColumn (column : ColumnName)
  /-- A speculative column that the schema does not have yet. -/
  | unresolvedSpeculative (column : CubeColumn)
  | cyclic (path : List Entity)
  | duplicateEdge (edge : Edge)
  | invalidOwner (kind : Edge.Kind) (owner : Entity)
  | invalidTarget (kind : Edge.Kind) (owner target : Entity)
  /-- An entity that neither the trail nor its schema has. -/
  | dangling (entity : Entity)
  | unknownTable (table : String)
  | unknownFunction (function : String)
  | unknownHierarchy (hierarchy : String)
  | mismatch (cause : Mismatch)
  | overflow (cause : Overflow)
  | divisionByZero
  /-- A value of an expression with parameters that was computed without reading any cell. -/
  | incompleteLineage (parameters : Nat)
  | invalid (flaw : Flaw)
  | violation (cause : Violation)
  /-- A table that failed before; the reason is the message of that failure. -/
  | failedBefore (table reason : String)
  /-- A file that cannot be accessed, with what was being done. -/
  | inaccessible (action : String)

namespace Mismatch

/-- The name of the data type of a payload. -/
def typeName : Option DataType → String
  | none => "null"
  | some type => type.name

/-- The wording of a mismatch. -/
def message : Mismatch → String
  | .predicate v => "predicate produced " ++ v.display ++ ", expected boolean"
  | .raw v type => "cannot read " ++ v.compact ++ " as " ++ type.name
  | .comparison a b => "cannot compare " ++ a.display ++ " with " ++ b.display
  | .arithmetic op a b =>
    "cannot apply " ++ op.symbol ++ " to " ++ a.display ++ " and " ++ b.display
  | .negation v => "cannot negate " ++ v.display
  | .argumentCount function expected given =>
    function ++ " takes " ++ Text.Digits.text expected ++ " argument(s), got " ++
      Text.Digits.text given
  | .argument function v => function ++ " of " ++ v.display
  | .membership v => "MEMBER test on " ++ v.display ++ ", expected text"
  | .condition v => v.display ++ " used as a boolean"
  | .mixedAggregate func a b =>
    func.name ++ " over mixed " ++ typeName a ++ " and " ++ typeName b
  | .nonNumericAggregate func v => func.name ++ " over non-numeric " ++ v.display
  | .field v type column => v.display ++ " is not a valid " ++ type.name ++ " for field " ++ column
  | .record table column row cause =>
    table ++ "." ++ column ++ " row " ++ Text.Digits.text row ++ ": " ++ cause.message

end Mismatch

/-- The computation that overflowed. -/
def Overflow.message : Overflow → String
  | .arithmetic op a b => a.display ++ " " ++ op.symbol ++ " " ++ b.display
  | .negation i => "-" ++ i.text
  | .absolute i => "abs(" ++ i.text ++ ")"
  | .averageTotal count => "avg of " ++ Text.Digits.text count ++ " values"
  | .average => "avg"

/-- The wording of a flaw. -/
def Flaw.message : Flaw → String
  | .unreadable kind => kind.name
  | .unknownPolicy text => "unknown speculative policy " ++ Text.quoted text
  | .unreadableSetting key value => key ++ ": cannot parse " ++ Text.quoted value
  | .duplicateTable table => "duplicate table " ++ table
  | .duplicateColumn column => "duplicate column " ++ column.text
  | .duplicateHierarchy hierarchy => "duplicate hierarchy " ++ hierarchy
  | .unknownSource table source => "derived table " ++ table ++ " reads unknown table " ++ source
  | .cyclicHierarchy hierarchy member =>
    "hierarchy " ++ hierarchy ++ " has a cycle through member " ++ member
  | .repeatedJoin table => "table " ++ table ++ " appears twice in one join"
  | .missingArgument func => func.name ++ " requires an argument"
  | .ungrouped column => "column " ++ column.text ++ " must be grouped or aggregated"

/-- The wording of a violation. -/
def Violation.message : Violation → String
  | .noSources table => "derived table " ++ table ++ " has no source tables"
  | .fieldOfDerived column table =>
    "database field " ++ column ++ " cannot belong to derived table " ++ table
  | .functionOfDatabase column table =>
    "function " ++ column ++ " cannot belong to database table " ++ table
  | .foreignRow row populated =>
    "row " ++ row.text ++ " does not belong to populated table " ++ populated.text
  | .foreignColumn column populated =>
    "column " ++ column ++ " does not belong to the table of populated table " ++ populated.text
  | .variantMismatch column row =>
    "column " ++ column ++ " and row " ++ row.text ++ " are from different table variants"
  | .readBeforeMaterialized table => "table " ++ table ++ " read before it was materialized"
  | .columnNotInSnapshot column => "column " ++ column.text ++ " is not in the snapshot"
  | .databaseOwnsFunction table column => "database table " ++ table ++ " owns function " ++ column
  | .derivedOwnsField table column => "derived table " ++ table ++ " owns database field " ++ column
  | .notMaterialized table => "table " ++ table ++ " is not materialized"

namespace Error

/-- The code of an error in records and reports. -/
def code : Error → String
  | .unresolvedColumn _ => "unresolved_source_column"
  | .unresolvedSpeculative _ => "unresolved_speculative_reference"
  | .cyclic _ => "cyclic_lineage"
  | .duplicateEdge _ => "duplicate_edge"
  | .invalidOwner .. => "invalid_edge_owner"
  | .invalidTarget .. => "invalid_edge_target"
  | .dangling _ => "dangling_reference"
  | .unknownTable _ => "unknown_table"
  | .unknownFunction _ => "unknown_function"
  | .unknownHierarchy _ => "unknown_hierarchy"
  | .mismatch _ => "type_mismatch"
  | .overflow _ => "numeric_overflow"
  | .divisionByZero => "division_by_zero"
  | .incompleteLineage _ => "incomplete_lineage"
  | .invalid _ => "invalid_definition"
  | .violation _ => "invariant_violation"
  | .failedBefore .. => "dependency_failed"
  | .inaccessible _ => "internal"

/-- Whether a caller may go on with the trail. -/
def isRecoverable : Error → Bool
  | .unresolvedSpeculative _ | .duplicateEdge _ => true
  | _ => false

/-- The wording of an error. -/
def message : Error → String
  | .unresolvedColumn column => "unresolved source column " ++ column.text
  | .unresolvedSpeculative column =>
    "unresolved speculative reference " ++ column.toColumn.text
  | .cyclic path => "cyclic lineage: " ++ " -> ".intercalate (path.map Entity.text)
  | .duplicateEdge edge =>
    "duplicate edge " ++ edge.kind.name ++ " from " ++ edge.owner.id.text ++ " to " ++
      edge.target.text
  | .invalidOwner kind owner => "edge " ++ kind.name ++ " cannot be owned by " ++ owner.text
  | .invalidTarget kind owner target =>
    "edge " ++ kind.name ++ " from " ++ owner.text ++ " cannot point at " ++ target.text
  | .dangling entity => "dangling reference: " ++ entity.text ++ " does not belong to this trail"
  | .unknownTable table => "unknown table: " ++ table
  | .unknownFunction function => "unknown function: " ++ function
  | .unknownHierarchy hierarchy => "unknown hierarchy: " ++ hierarchy
  | .mismatch cause => "type mismatch: " ++ cause.message
  | .overflow cause => "numeric overflow in " ++ cause.message
  | .divisionByZero => "division by zero"
  | .incompleteLineage parameters =>
    "incomplete lineage: expression with " ++ Text.Digits.text parameters ++
      " parameter(s) recorded no sources"
  | .invalid flaw => "invalid definition: " ++ flaw.message
  | .violation cause => "invariant violated: " ++ cause.message
  | .failedBefore table reason =>
    "dependency " ++ table ++ ": " ++ reason ++ " failed earlier in this trail"
  | .inaccessible action => "internal: " ++ action

end Error

end Provenance
