import Provenance.Initialization.State
import Provenance.Scalar.Coercion

/-!
# Populating a table from records

Every record becomes a row, and what it holds for a field becomes a value of the data type of that field. A
record without a field holds nothing there.

The identities of a draft follow each other: the table, then each row before its values.
-/

namespace Provenance

namespace Draft

/-- The identity of a row, in a draft that begins with `first` and whose rows have `width` values. -/
def rowId (first width row : Nat) : Id := ⟨first + 1 + row * (width + 1)⟩

/-- The identity of a value of a row. -/
def valueId (first width row column : Nat) : Id := ⟨first + 2 + row * (width + 1) + column⟩

/-- The first identity after those of a draft. -/
def idsEnd (d : Draft) (first : Nat) : Nat :=
  first + 1 + d.extent.rows.length * (d.extent.columns.length + 1)

end Draft

/-- A row with its values. -/
structure FilledRow where
  row : Row
  values : List Value

/-- The table with rows. -/
def Extent.ofRows (populated : Populated) (columns : List Id) (rows : List FilledRow) : Extent :=
  ⟨populated, columns, rows.map FilledRow.row, rows.flatMap FilledRow.values⟩

namespace Populate

/-- The data type of a field of a supplied table. -/
def fieldType (table : Table) (column : Column) : Except Error DataType :=
  match column.kind with
  | .field type => .ok type
  | .function .. => .error (.violation (.databaseOwnsFunction table.name column.name))

/-- The payload of a field in a record; a mismatch tells where it was met. -/
def payload (table : Table) (column : Column) (row : Nat) (type : DataType) (r : SourceRecord) :
    Except Error Scalar :=
  match Scalar.coerce type ((r.lookup column.name).getD .null) with
  | .error (.mismatch cause) => .error (.mismatch (.record table.name column.name row cause))
  | result => result

/-- Accepts a record without fields that the table does not have, if that is asked for. -/
def checkFields (strict : Bool) (table : Table) (columns : List Column) (r : SourceRecord) :
    Except Error Unit :=
  match r.find? fun field => columns.all fun column => column.name ≠ field.1 with
  | some field => if strict then .error (.unresolvedColumn ⟨table.name, field.1⟩) else .ok ()
  | none => .ok ()

/-- The value of a field in a row. -/
def value (table : Table) (populated : Populated) (row : Row) (r : SourceRecord) (id : Id)
    (column : Column) : Except Error Value := do
  let type ← fieldType table column
  let payload ← payload table column row.number type r
  Value.create id populated row column payload

/-- The row of a record. -/
def row (strict : Bool) (table : Table) (populated : Populated) (columns : List Column) (first : Nat)
    (record : SourceRecord × Nat) : Except Error FilledRow := do
  let (r, n) := record
  checkFields strict table columns r
  let row := Row.create (Draft.rowId first columns.length n) populated n
  let values ← columns.zipIdx.mapM fun column =>
    value table populated row r (Draft.valueId first columns.length n column.2) column.1
  pure ⟨row, values⟩

/-- A supplied table with all its records, its identities starting from that of the table. -/
def draft (setup : Setup) (populated : Populated) (table : Table) : Except Error Draft := do
  let columns := setup.catalog.columnsOf table.id
  let records := setup.data.records table.name
  let rows ← records.zipIdx.mapM
    (row setup.settings.strictColumns table populated columns populated.id.number)
  pure ⟨.ofRows populated (columns.map Column.id) rows, []⟩

end Populate

end Provenance
