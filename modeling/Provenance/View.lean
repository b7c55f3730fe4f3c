import Provenance.Initialization.State
import Provenance.Rows.Source

/-!
# Views of a trail

The thing behind an entity, and the rows of a materialized table with their values under the names of their
columns.
-/

namespace Provenance

/-- The thing that an entity is. -/
inductive Subject where
  | table (table : Table)
  | creation (creation : Creation)
  | column (column : Column)
  | populated (populated : Populated)
  | row (row : Row)
  | value (value : Value)

/-- A thing as an entity. -/
def Subject.entity : Subject → Entity
  | .table t => t.entity
  | .creation c => c.entity
  | .column c => c.entity
  | .populated p => p.entity
  | .row r => r.entity
  | .value v => v.entity

/-- The thing with the identity of an entity, of the sort that its kind belongs to. -/
def findSubject? (c : Catalog) (s : Store) (e : Entity) : Option Subject :=
  match e.kind with
  | .databaseTable | .derivedTable => (c.tableById? e.id).map .table
  | .tableCreation => (c.creationById? e.id).map .creation
  | .databaseField | .function => (c.columnById? e.id).map .column
  | .populatedTable | .evaluatedTable => (s.populated? e.id).map .populated
  | .databaseRow | .derivedRow => (s.row? e.id).map .row
  | .databaseValue | .evaluatedValue => (s.value? e.id).map .value

/-- The thing that an entity is, in the catalog or among what is materialized. -/
def lookupEntity (c : Catalog) (s : Store) (e : Entity) : Option Subject :=
  (findSubject? c s e).filter fun subject => subject.entity = e

/-- The name of a table. -/
def tableName (c : Catalog) (id : Id) : String := ((c.tableById? id).map Table.name).getD ""

/-- What an entity is called in a graph. -/
def labelOf (c : Catalog) (s : Store) (e : Entity) : String :=
  match lookupEntity c s e with
  | some (.table t) => t.name
  | some (.creation creation) => creation.approach.name
  | some (.column column) =>
    match c.tableById? column.table with
    | some t => t.name ++ "." ++ column.name
    | none => column.name
  | some (.populated p) => tableName c p.table
  | some (.row r) =>
    ((s.populated? r.populated).map fun p => tableName c p.table).getD "" ++ "#" ++
      Text.Digits.text r.number
  | some (.value v) =>
    ((c.columnById? v.column).map Column.name).getD "" ++ "=" ++ v.payload.display
  | none => e.text

/-- A cell of a materialized table. -/
structure CellView where
  column : String
  value : Entity
  payload : Scalar

/-- A row of a materialized table. -/
structure RowView where
  row : Entity
  number : Nat
  cells : List CellView

/-- The cell in a column. -/
def RowView.cell? (r : RowView) (column : String) : Option CellView :=
  r.cells.find? fun cell => cell.column = column

/-- A materialized table. -/
structure TableView where
  table : String
  populated : Entity
  columns : List String
  rows : List RowView

namespace TableView

/-- The cell in a column of a row. -/
def valueAt? (t : TableView) (row : Nat) (column : String) : Option CellView := do
  (← t.rows[row]?).cell? column

/-- The payloads of a row by the names of their columns. -/
def record (r : RowView) : List (String × Scalar) :=
  Json.sortFields (r.cells.map fun cell => (cell.column, cell.payload))

/-- The payloads of all rows. -/
def records (t : TableView) : List (List (String × Scalar)) := t.rows.map record

/-- The result set: an object for every row. -/
def toJson (t : TableView) : Json :=
  .array (t.records.map fun r => .object (r.map fun field => (field.1, field.2.toJson)))

/-- The cell that a value is, if its column is one of those named. -/
def cellOf? (columns : List (Id × String)) (v : Value) : Option CellView :=
  (columns.lookup v.column).map fun name => ⟨name, v.entity, v.payload⟩

/-- A row with its values in the store. -/
def rowOf (s : Store) (columns : List (Id × String)) (r : Row) : RowView :=
  ⟨r.entity, r.number, (s.valuesOf r.id).filterMap (cellOf? columns)⟩

/-- The columns of the catalog among those with given identities. -/
def namedColumns (c : Catalog) (ids : List Id) : List (Id × String) :=
  ids.filterMap fun id => (c.columnById? id).map fun column => (id, column.name)

/-- The view of the table with a name, as it is materialized in the store. -/
def ofStore (c : Catalog) (s : Store) (name : String) : Except Error TableView := do
  let table ← c.table name
  match s.populatedFor? table.id with
  | none => .error (.violation (.notMaterialized name))
  | some p =>
    let columns := namedColumns c (s.columnsOf p.id)
    pure ⟨table.name, p.entity, columns.map Prod.snd, (s.rowsOf p.id).map (rowOf s columns)⟩

end TableView

end Provenance
