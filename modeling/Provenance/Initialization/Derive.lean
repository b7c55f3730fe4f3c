import Provenance.Initialization.Plan
import Provenance.Initialization.Populate
import Provenance.Rows.Create

/-!
# Deriving a table

The rows of a derived table are made from its source tables, and each planned column is filled in every row.
An edge leads from each row to the rows it was made from, and from each value to the values that were read
for it.
-/

namespace Provenance

namespace Derive

/-- A value with the edges to the values that were read for it. -/
def computed (id : Id) (populated : Populated) (row : Row) (column : Column) (e : Expr)
    (result : Evaluated) : Except Error (Value × List Edge) := do
  if e.parameterCount ≠ 0 ∧ result.sources.isEmpty ∧ !result.nullExtended then
    .error (.incompleteLineage e.parameterCount)
  else
    let v ← Value.create id populated row column result.value
    pure (v, result.sources.map fun source => ⟨v.entity, .valueSource, source⟩)

/-- The value of a planned column in a row. -/
def value (c : Catalog) (functions : Functions) (populated : Populated) (row : Row) (frame : RowFrame)
    (id : Id) : ColumnPlan → Except Error (Value × List Edge)
  | .fill column literal => do pure (← Value.create id populated row column literal, [])
  | .compute column e => do
    computed id populated row column e (← e.evaluate c functions frame.scope)

/-- A row with its values and its edges: first those of the row, then those of its values. -/
def row (c : Catalog) (functions : Functions) (populated : Populated) (plan : List ColumnPlan)
    (first : Nat) (frame : RowFrame × Nat) : Except Error (FilledRow × List Edge) := do
  let (frame, n) := frame
  let row := Row.create (Draft.rowId first plan.length n) populated n
  let values ← plan.zipIdx.mapM fun p =>
    value c functions populated row frame (Draft.valueId first plan.length n p.2) p.1
  let rowEdges := frame.sourceRows.map fun source => (⟨row.entity, .rowSource, source⟩ : Edge)
  pure (⟨row, values.map Prod.fst⟩, rowEdges ++ values.flatMap Prod.snd)

/-- The edges of the definitions: from the creation to its tables and columns, and from each computed column
to the columns it reads. -/
def definitionEdges (creation : Creation) (plan : List ColumnPlan) : List Edge :=
  creation.sourceTables.map (fun e => ⟨creation.entity, .creationTable, e⟩) ++
    creation.sourceColumns.map (fun e => ⟨creation.entity, .creationColumn, e⟩) ++
    plan.flatMap fun p =>
      match p with
      | .compute column _ =>
        column.references.map fun e => (⟨column.entity, .functionColumn, e⟩ : Edge)
      | .fill .. => []

/-- A derived table over its source tables, its identities starting from that of the table. -/
def draft (setup : Setup) (populated : Populated) (table : Table) (creation : Creation)
    (sources : List SourceTable) : Except Error Draft := do
  let c := setup.catalog
  Plan.checkFilter c sources creation.approach
  let plan ← Plan.columns c setup.settings.policy sources table.name (c.columnsOf table.id)
  let frames ← creation.approach.createRows c setup.functions sources
  let rows ← frames.zipIdx.mapM (row c setup.functions populated plan populated.id.number)
  let definitions := if setup.settings.recordDefinitions then definitionEdges creation plan else []
  pure
    ⟨.ofRows populated (plan.map fun p => p.column.id) (rows.map Prod.fst),
      definitions ++ rows.flatMap Prod.snd⟩

end Derive

/-- A source table of a derived one, as it is materialized. -/
def bindSource (c : Catalog) (s : Store) (name : String) : Except Error SourceTable := do
  SourceTable.bind c s (← c.table name)

end Provenance
