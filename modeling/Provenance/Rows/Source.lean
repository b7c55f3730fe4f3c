import Provenance.Store.Basic

/-!
# Source tables

A materialized table as the rows of another one are made from it: its cells are found by the names of their
columns. A binding takes one row of each of several tables; the place of a table that found no partner in
a join is empty.
-/

namespace Provenance

/-- A materialized value and its payload. -/
structure Cell where
  value : Entity
  payload : Scalar
  deriving DecidableEq

/-- A row whose cells are found by the names of their columns. -/
structure SourceRow where
  row : Entity
  cells : List (String × Cell)

namespace SourceRow

/-- The cell in a column. -/
def cell? (r : SourceRow) (column : String) : Option Cell := r.cells.lookup column

end SourceRow

/-- A materialized table with the names of its columns. -/
structure SourceTable where
  name : String
  columns : List String
  rows : List SourceRow

namespace SourceTable

/-- Whether the table holds values in a column. -/
def hasColumn (t : SourceTable) (column : String) : Bool := t.columns.contains column

/-- The name of a column of the catalog. -/
def columnName (c : Catalog) (id : Id) : Except Error String :=
  match c.columnById? id with
  | some column => .ok column.name
  | none => .error (.violation (.columnNotInSnapshot id))

/-- The cell that a value is, with the name of its column. -/
def bindCell (c : Catalog) (v : Value) : Except Error (String × Cell) := do
  pure (← columnName c v.column, ⟨v.entity, v.payload⟩)

/-- A row with its values in the store. -/
def bindRow (c : Catalog) (s : Store) (r : Row) : Except Error SourceRow := do
  pure ⟨r.entity, ← (s.valuesOf r.id).mapM (bindCell c)⟩

/-- A table that is materialized in the store. -/
def bind (c : Catalog) (s : Store) (t : Table) : Except Error SourceTable := do
  match s.populatedFor? t.id with
  | none => .error (.violation (.readBeforeMaterialized t.name))
  | some p =>
    let columns ← (s.columnsOf p.id).mapM (columnName c)
    let rows ← (s.rowsOf p.id).mapM (bindRow c s)
    pure ⟨t.name, columns, rows⟩

end SourceTable

/-- Whether one of the tables has a column. -/
def anyHasColumn (sources : List SourceTable) (name : ColumnName) : Bool :=
  sources.any fun t => t.name == name.table && t.hasColumn name.column

/-- Rows of several tables, one of each, or none where a join found no partner. -/
structure Binding where
  slots : List (SourceTable × Option SourceRow)

namespace Binding

/-- A row alone. -/
def single (t : SourceTable) (r : SourceRow) : Binding := ⟨[(t, some r)]⟩

/-- A binding with a row of one more table. -/
def extend (b : Binding) (t : SourceTable) (r : Option SourceRow) : Binding := ⟨b.slots ++ [(t, r)]⟩

/-- The cell in a column, or nothing when the place of its table is empty. -/
def lookup (b : Binding) (name : ColumnName) : Except Error (Option Cell) :=
  match b.slots.find? fun slot => slot.1.name = name.table with
  | none => .error (.unresolvedColumn name)
  | some (t, r) =>
    if !t.hasColumn name.column then .error (.unresolvedColumn name)
    else
      match r with
      | none => .ok none
      | some r =>
        match r.cell? name.column with
        | some cell => .ok (some cell)
        | none => .error (.unresolvedColumn name)

/-- The payload in a column; an empty place holds nothing. -/
def payload (b : Binding) (name : ColumnName) : Except Error Scalar := do
  match ← b.lookup name with
  | some cell => pure cell.payload
  | none => pure .null

/-- The rows, without the empty places. -/
def sourceRows (b : Binding) : List Entity := b.slots.filterMap fun slot => slot.2.map SourceRow.row

end Binding

/-- What the columns of one derived row are computed from: one binding, or all bindings of a group, whose
key holds the values of the columns that were grouped by. -/
inductive Scope where
  | row (binding : Binding)
  | group (key : List Scalar) (columns : List ColumnName) (members : List Binding)

namespace Scope

/-- The bindings that aggregates are taken over. -/
def partition : Scope → List Binding
  | .row b => [b]
  | .group _ _ members => members

/-- The rows of all bindings, each once, in the order in which they are first met. -/
def sourceRows (s : Scope) : List Entity := distinct (s.partition.flatMap Binding.sourceRows)

end Scope

/-- A derived row whose columns are not computed yet. -/
structure RowFrame where
  scope : Scope
  sourceRows : List Entity

/-- The frame of a scope. -/
def RowFrame.ofScope (s : Scope) : RowFrame := ⟨s, s.sourceRows⟩

end Provenance
