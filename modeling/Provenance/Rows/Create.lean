import Provenance.Evaluation
import Provenance.Rows.Join

/-!
# Making rows

The frames of the rows of a derived table, made from its source tables by its approach. Columns that decide
which rows there are have to exist before any row is made. Rows are grouped by equal values in some columns, and
groups stand in the order of their first rows. Rows that hold nothing in a column are put together too.
-/

namespace Provenance

/-- A row with the values in the columns that are grouped by. -/
def keyed (t : SourceTable) (columns : List ColumnName) (r : SourceRow) :
    Except Error (Key × Binding) := do
  let b := Binding.single t r
  pure (← columns.mapM b.payload, b)

/-- The groups of the rows of a table, each under the key of its first row. -/
def groupRows (t : SourceTable) (columns : List ColumnName) : Except Error (KeyIndex Binding) := do
  pure (.ofList (← t.rows.mapM (keyed t columns)))

namespace Approach

/-- Accepts an approach whose columns the sources have. -/
def checkColumns (a : Approach) (sources : List SourceTable) : Except Error Unit :=
  match a.sourceColumns.find? fun name => !anyHasColumn sources name with
  | some name => .error (.unresolvedColumn name)
  | none => .ok ()

/-- The frame of a row alone. -/
def singleFrame (t : SourceTable) (r : SourceRow) : RowFrame := .ofScope (.row (.single t r))

/-- The frame of a row, if a predicate holds for it. -/
def filterRow (c : Catalog) (functions : Functions) (predicate : Expr) (t : SourceTable)
    (r : SourceRow) : Except Error (Option RowFrame) := do
  let result ← predicate.evaluate c functions (.row (.single t r))
  pure (if ← result.value.holds then some (singleFrame t r) else none)

/-- The frames of the rows that an approach makes. -/
def createRows (c : Catalog) (functions : Functions) (a : Approach) (sources : List SourceTable) :
    Except Error (List RowFrame) := do
  a.checkColumns sources
  match a with
  | .filter source predicate =>
    let t ← sourceTable sources source
    let kept ← t.rows.mapM (filterRow c functions predicate t)
    pure (kept.filterMap id)
  | .enrichment source =>
    let t ← sourceTable sources source
    pure (t.rows.map (singleFrame t))
  | .join base steps =>
    let t ← sourceTable sources base
    let bindings ← joinRows sources t steps
    pure (bindings.map fun b => .ofScope (.row b))
  | .group source keys =>
    let t ← sourceTable sources source
    let groups ← groupRows t keys
    pure (groups.map fun g => .ofScope (.group g.key keys g.items))

end Approach

end Provenance
