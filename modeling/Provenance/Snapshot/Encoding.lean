import Provenance.Edge.Encoding
import Provenance.Scalar.Reading
import Provenance.Snapshot.Basic

/-!
# Snapshots as documents

A snapshot is written with all of its parts in the order of their declaration, and read back from the same
form. Only the context of a trail, the end of a trail that is still running and the failures may be left
out.
-/

namespace Provenance

open Document

/-- A point of time as a document. -/
def Timestamp.encode (t : Timestamp) : Json := .text t.text

/-- A point of time read from a text. -/
def Timestamp.ofDocument? [Document α] (v : α) : Option Timestamp := do Timestamp.read? (← text? v)

namespace Trail

/-- A trail as a document. -/
def encode (t : Trail) : Json :=
  .object [("id", t.id.encode), ("name", .text t.name), ("created_at", t.createdAt.encode),
    ("context", .object t.context), ("metadata_trail_id", t.catalog.encode),
    ("metadata_fingerprint", .text t.fingerprint), ("status", .text t.status.name),
    ("finished_at", match t.finishedAt with
      | some time => time.encode
      | none => .null)]

/-- A context read from an object. -/
def readContext? (depth : Nat) : Option Json → Option (List (String × Json))
  | none => some []
  | some v => do
    match ← v.read? depth with
    | .object fields => some fields
    | _ => none

/-- A trail read from a record. -/
def read? (depth : Nat) (v : Json) : Option Trail := do
  let names := ["id", "name", "created_at", "context", "metadata_trail_id", "metadata_fingerprint",
    "status", "finished_at"]
  match depth, ← record? names v with
  | depth + 1, [some id, some name, some createdAt, context, some catalog, some fingerprint,
      some status, finishedAt] =>
    let finishedAt ← match finishedAt with
      | none => some none
      | some v => if isMissing v then some none else (Timestamp.ofDocument? v).map some
    some ⟨← Id.ofDocument? id, ← text? name, ← Timestamp.ofDocument? createdAt,
      ← readContext? depth context, ← Id.ofDocument? catalog, ← text? fingerprint,
      ← Status.ofName? (← name? depth status), finishedAt⟩
  | _, _ => none

end Trail

/-- The origin whose things of a sort have a kind. -/
def Origin.ofKind? (kindOf : Origin → Entity.Kind) (name : String) : Option Origin :=
  [Origin.database, .derived].find? fun origin => (kindOf origin).name == name

/-- A count read from a number. -/
def readCount? (v : Json) : Option Nat := do
  let n ← count? v
  if n < 1 <<< 64 then some n else none

namespace Populated

/-- A materialized table as a document. -/
def encode (p : Populated) : Json :=
  .object [("id", p.id.encode), ("trail_id", p.trail.encode), ("table_id", p.table.encode),
    ("kind", .text p.origin.tableKind.name), ("created_at", p.createdAt.encode)]

/-- A materialized table read from a record. -/
def read? (depth : Nat) (v : Json) : Option Populated := do
  match depth, ← record? ["id", "trail_id", "table_id", "kind", "created_at"] v with
  | depth + 1, [some id, some trail, some table, some kind, some createdAt] =>
    some ⟨← Id.ofDocument? id, ← Id.ofDocument? trail, ← Id.ofDocument? table,
      ← Origin.ofKind? Origin.tableKind (← name? depth kind), ← Timestamp.ofDocument? createdAt⟩
  | _, _ => none

end Populated

namespace Row

/-- A row as a document. -/
def encode (r : Row) : Json :=
  .object [("id", r.id.encode), ("populated_table_id", r.populated.encode),
    ("row_number", .int r.number), ("kind", .text r.origin.rowKind.name)]

/-- A row read from a record. -/
def read? (depth : Nat) (v : Json) : Option Row := do
  match depth, ← record? ["id", "populated_table_id", "row_number", "kind"] v with
  | depth + 1, [some id, some populated, some number, some kind] =>
    some ⟨← Id.ofDocument? id, ← Id.ofDocument? populated, ← readCount? number,
      ← Origin.ofKind? Origin.rowKind (← name? depth kind)⟩
  | _, _ => none

end Row

namespace Value

/-- A value as a document. -/
def encode (v : Value) : Json :=
  .object [("id", v.id.encode), ("row_id", v.row.encode), ("column_id", v.column.encode),
    ("payload", v.payload.encode), ("kind", .text v.origin.valueKind.name)]

/-- A value read from a record. -/
def read? (depth : Nat) (v : Json) : Option Value := do
  match depth, ← record? ["id", "row_id", "column_id", "payload", "kind"] v with
  | depth + 1, [some id, some row, some column, some payload, some kind] =>
    some ⟨← Id.ofDocument? id, ← Id.ofDocument? row, ← Id.ofDocument? column,
      ← Scalar.read? depth payload, ← Origin.ofKind? Origin.valueKind (← name? depth kind)⟩
  | _, _ => none

end Value

namespace Failure

/-- A failure as a document. -/
def encode (f : Failure) : Json :=
  .object [("entity", f.entity.encode), ("table", .text f.table), ("code", .text f.code),
    ("message", .text f.message)]

/-- A failure read from a record. -/
def read? (depth : Nat) (v : Json) : Option Failure := do
  match depth, ← record? ["entity", "table", "code", "message"] v with
  | depth + 1, [some entity, some table, some code, some message] =>
    some ⟨← Entity.read? depth entity, ← text? table, ← text? code, ← text? message⟩
  | _, _ => none

end Failure

namespace Snapshot

/-- A snapshot as a document. -/
def encode (s : Snapshot) : Json :=
  .object [("trail", s.trail.encode), ("populated_tables", .array (s.populated.map Populated.encode)),
    ("rows", .array (s.rows.map Row.encode)), ("values", .array (s.values.map Value.encode)),
    ("edges", .array (s.edges.map Edge.encode)),
    ("failures", .array (s.failures.map Failure.encode))]

/-- A snapshot read from a record. -/
def read? (depth : Nat) (v : Json) : Option Snapshot := do
  match depth, ← record? ["trail", "populated_tables", "rows", "values", "edges", "failures"] v with
  | depth + 2, [some trail, some populated, some rows, some values, some edges, failures] =>
    some ⟨← Trail.read? (depth + 1) trail, ← list? (Populated.read? depth) populated,
      ← list? (Row.read? depth) rows, ← list? (Value.read? depth) values,
      ← list? (Edge.read? depth) edges, ← listOrEmpty? (Failure.read? depth) failures⟩
  | _, _ => none

/-- The text that a snapshot is kept as. -/
def text (s : Snapshot) : String := s.encode.pretty

/-- The snapshot that a text holds. -/
def ofText? (text : String) : Option Snapshot := do read? Json.depthLimit (← Json.parse? text)

end Snapshot

end Provenance
