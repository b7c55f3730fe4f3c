import Provenance.Catalog.Basic
import Provenance.Edge.Encoding
import Provenance.Schema.Encoding

/-!
# Catalogs as documents

Tables, creations, columns and hierarchies as records of what they are.
-/

namespace Provenance

/-- A creation as a document. -/
def Creation.encode (c : Creation) : Json :=
  .object [("id", c.id.encode), ("approach", c.approach.encode),
    ("source_tables", .array (c.sourceTables.map Entity.encode)),
    ("source_columns", .array (c.sourceColumns.map Entity.encode))]

/-- A table as a document. -/
def Table.encode (t : Table) : Json :=
  let kind : Json := match t.creation with
    | none => .object [("variant", .text "database_table")]
    | some c => .object [("variant", .text "derived_table"), ("creation", c.encode)]
  .object [("id", t.id.encode), ("name", .text t.name), ("kind", kind)]

/-- The text of a function as a document. -/
def FunctionText.encode (t : FunctionText) : Json :=
  .object [("text", .text t.text), ("language", .text t.language)]

/-- A column as a document. -/
def Column.encode (c : Column) : Json :=
  let kind : Json := match c.kind with
    | .field type => .object [("variant", .text "database_field"), ("data_type", .text type.name)]
    | .function text expr references =>
      .object [("variant", .text "function"), ("text", text.encode), ("expr", expr.encode),
        ("references", .array (references.map Entity.encode))]
  .object [("id", c.id.encode), ("name", .text c.name), ("table_id", c.table.encode), ("kind", kind)]

/-- A hierarchy as a document. -/
def Hierarchy.encode (h : Hierarchy) : Json :=
  .object [("name", .text h.name),
    ("parents", .object (h.parents.map fun entry => (entry.1, .array (entry.2.map .text))))]

end Provenance
