import Provenance.Catalog.Encoding
import Provenance.Snapshot.Encoding
import Provenance.View

/-!
# Views as documents

A view of a table with the entities behind its cells, and the thing behind an entity.
-/

namespace Provenance

/-- A cell as a document. -/
def CellView.encode (cell : CellView) : Json :=
  .object [("column", .text cell.column), ("value", cell.value.encode),
    ("payload", cell.payload.encode)]

/-- A row as a document. -/
def RowView.encode (r : RowView) : Json :=
  .object [("row", r.row.encode), ("row_number", .int r.number),
    ("cells", .array (r.cells.map CellView.encode))]

/-- A materialized table as a document. -/
def TableView.encode (t : TableView) : Json :=
  .object [("table", .text t.table), ("populated", t.populated.encode),
    ("columns", .array (t.columns.map .text)), ("rows", .array (t.rows.map RowView.encode))]

/-- What sort of thing a subject is. -/
def Subject.sort : Subject → String
  | .table _ => "table"
  | .creation _ => "creation"
  | .column _ => "column"
  | .populated _ => "populated"
  | .row _ => "row"
  | .value _ => "value"

/-- A subject as a document. -/
def Subject.encode : Subject → Json
  | .table t => t.encode
  | .creation c => c.encode
  | .column c => c.encode
  | .populated p => p.encode
  | .row r => r.encode
  | .value v => v.encode

end Provenance
