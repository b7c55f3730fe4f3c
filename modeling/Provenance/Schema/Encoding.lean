import Provenance.Expr.Encoding
import Provenance.Schema.Basic

/-!
# Schemas as documents

The canonical document of a schema writes every part in the order of its declaration, also those that are
missing or have a default. Its text in one line is what the fingerprint of a schema is taken of.
-/

namespace Provenance

/-- A text that may be missing. -/
def encodeText? : Option String → Json
  | some s => .text s
  | none => .null

/-- A field as a document. -/
def FieldDefinition.encode (f : FieldDefinition) : Json :=
  .object [("name", .text f.name), ("type", .text f.type.name)]

/-- A supplied table as a document. -/
def TableDefinition.encode (t : TableDefinition) : Json :=
  .object [("name", .text t.name), ("fields", .array (t.fields.map FieldDefinition.encode))]

/-- A link of a hierarchy as a document. -/
def HierarchyLink.encode (l : HierarchyLink) : Json :=
  .object [("parent", .text l.parent), ("child", .text l.child)]

/-- A hierarchy as a document. -/
def HierarchyDefinition.encode (h : HierarchyDefinition) : Json :=
  .object [("name", .text h.name), ("edges", .array (h.links.map HierarchyLink.encode))]

/-- A join key as a document. -/
def JoinKey.encode (k : JoinKey) : Json :=
  .object [("left", k.left.encode), ("right", .text k.right)]

/-- A step of a join as a document. -/
def JoinStep.encode (s : JoinStep) : Json :=
  .object [("table", .text s.table), ("kind", .text s.kind.name),
    ("on", .array (s.on.map JoinKey.encode))]

/-- An approach as a document, its name standing first. -/
def Approach.encode (a : Approach) : Json :=
  let parts : List (String × Json) :=
    match a with
    | .filter source predicate => [("source", .text source), ("predicate", predicate.encode)]
    | .enrichment source => [("source", .text source)]
    | .join base steps => [("base", .text base), ("steps", .array (steps.map JoinStep.encode))]
    | .group source keys =>
      [("source", .text source), ("group_by", .array (keys.map ColumnName.encode))]
  .object (("approach", .text a.name) :: parts)

/-- A column of a derived table as a document. -/
def FunctionDefinition.encode (f : FunctionDefinition) : Json :=
  .object [("name", .text f.name), ("text", encodeText? f.text), ("language", .text f.language),
    ("expr", f.expr.encode)]

/-- A derived table as a document. -/
def DerivedDefinition.encode (d : DerivedDefinition) : Json :=
  .object [("name", .text d.name), ("description", encodeText? d.description),
    ("creation", d.creation.encode), ("columns", .array (d.columns.map FunctionDefinition.encode))]

/-- A schema as a document. -/
def Schema.encode (s : Schema) : Json :=
  .object [("name", .text s.name), ("tables", .array (s.tables.map TableDefinition.encode)),
    ("hierarchies", .array (s.hierarchies.map HierarchyDefinition.encode)),
    ("derived_tables", .array (s.derived.map DerivedDefinition.encode))]

/-- The canonical text of a schema. -/
def Schema.canonical (s : Schema) : String := s.encode.compact

end Provenance
