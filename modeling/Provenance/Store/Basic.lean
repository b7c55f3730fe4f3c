import Provenance.Catalog.Basic
import Provenance.Timestamp

/-!
# Materialized tables

A table is materialized once in a trail: it gets rows, and each row a value in every column that was
materialized. Tables enter the store whole, and nothing in it changes afterwards.
-/

namespace Provenance

/-- A table that is materialized in a trail. -/
structure Populated where
  id : Id
  trail : Id
  table : Id
  origin : Origin
  createdAt : Timestamp
  deriving DecidableEq

namespace Populated

/-- A table about to be materialized. -/
def start (id trail : Id) (table : Table) (now : Timestamp) : Populated :=
  ⟨id, trail, table.id, table.origin, now⟩

/-- The materialized table as an entity. -/
def entity (p : Populated) : Entity := ⟨p.origin.tableKind, p.id⟩

end Populated

/-- A row of a materialized table. -/
structure Row where
  id : Id
  populated : Id
  /-- The place of the row, counted from zero. -/
  number : Nat
  origin : Origin
  deriving DecidableEq

namespace Row

/-- A row of a table. -/
def create (id : Id) (populated : Populated) (number : Nat) : Row :=
  ⟨id, populated.id, number, populated.origin⟩

/-- The row as an entity. -/
def entity (r : Row) : Entity := ⟨r.origin.rowKind, r.id⟩

end Row

/-- What a row holds in a column. -/
structure Value where
  id : Id
  row : Id
  column : Id
  payload : Scalar
  origin : Origin
  deriving DecidableEq

namespace Value

/-- The value as an entity. -/
def entity (v : Value) : Entity := ⟨v.origin.valueKind, v.id⟩

/-- A value in a column of a row. Row and column have to belong to the table, supplied payloads stand in
fields of their data type, and computed ones in functions. -/
def create (id : Id) (populated : Populated) (row : Row) (column : Column) (payload : Scalar) :
    Except Error Value :=
  if row.populated ≠ populated.id then .error (.violation (.foreignRow row.id populated.id))
  else if column.table ≠ populated.table then
    .error (.violation (.foreignColumn column.name populated.id))
  else
    match column.kind, row.origin with
    | .field type, .database =>
      if payload.conforms type then .ok ⟨id, row.id, column.id, payload, .database⟩
      else .error (.mismatch (.field payload type column.name))
    | .function .., .derived => .ok ⟨id, row.id, column.id, payload, .derived⟩
    | _, _ => .error (.violation (.variantMismatch column.name row.id))

end Value

/-- A table with all that was materialized of it. -/
structure Extent where
  populated : Populated
  /-- The columns that hold values, in the order of their declaration. -/
  columns : List Id
  rows : List Row
  values : List Value

namespace Extent

/-- A table without rows. -/
def empty (populated : Populated) : Extent := ⟨populated, [], [], []⟩

/-- The rows and values as entities. -/
def entities (x : Extent) : List Entity := x.rows.map Row.entity ++ x.values.map Value.entity

end Extent

/-- A table that is being materialized, with the edges that will enter the trail with it. -/
structure Draft where
  extent : Extent
  edges : List Edge

namespace Draft

/-- A draft without rows and edges. -/
def empty (populated : Populated) : Draft := ⟨.empty populated, []⟩

/-- Whether an entity is materialized by the draft. -/
def contains (d : Draft) (e : Entity) : Bool :=
  e = d.extent.populated.entity || decide (e ∈ d.extent.entities)

end Draft

/-- The materialized tables of a trail in the order in which they were committed. -/
structure Store where
  extents : List Extent

namespace Store

/-- The store without tables. -/
def empty : Store := ⟨[]⟩

/-- The store with one more table. -/
def commit (s : Store) (x : Extent) : Store := ⟨s.extents ++ [x]⟩

/-- All materialized tables. -/
def populated (s : Store) : List Populated := s.extents.map Extent.populated

/-- All rows. -/
def rows (s : Store) : List Row := s.extents.flatMap Extent.rows

/-- All values. -/
def values (s : Store) : List Value := s.extents.flatMap Extent.values

/-- The last member with a property, as later ones hide earlier ones. -/
def last? (p : α → Bool) (xs : List α) : Option α := xs.reverse.find? p

/-- The materialization of a table. -/
def populatedFor? (s : Store) (table : Id) : Option Populated :=
  last? (fun p => p.table = table) s.populated

/-- The materialized table with an identity. -/
def populated? (s : Store) (id : Id) : Option Populated := last? (fun p => p.id = id) s.populated

/-- The row with an identity. -/
def row? (s : Store) (id : Id) : Option Row := last? (fun r => r.id = id) s.rows

/-- The value with an identity. -/
def value? (s : Store) (id : Id) : Option Value := last? (fun v => v.id = id) s.values

/-- The columns that hold values in a materialized table. -/
def columnsOf (s : Store) (populated : Id) : List Id :=
  ((last? (fun x => x.populated.id = populated) s.extents).map Extent.columns).getD []

/-- The rows committed with a materialized table. -/
def rowsOf (s : Store) (populated : Id) : List Row :=
  (s.extents.filter fun x => x.populated.id = populated).flatMap Extent.rows

/-- The values of a row in the order of its columns. -/
def valuesOf (s : Store) (row : Id) : List Value := s.values.filter fun v => v.row = row

/-- The materialized entity with an identity, of the sort that a kind of entity belongs to. -/
def find? (s : Store) (e : Entity) : Option Entity :=
  match e.kind with
  | .populatedTable | .evaluatedTable => (s.populated? e.id).map Populated.entity
  | .databaseRow | .derivedRow => (s.row? e.id).map Row.entity
  | .databaseValue | .evaluatedValue => (s.value? e.id).map Value.entity
  | _ => none

/-- Whether an entity is materialized in the store. -/
def contains (s : Store) (e : Entity) : Bool := s.find? e = some e

end Store

end Provenance
