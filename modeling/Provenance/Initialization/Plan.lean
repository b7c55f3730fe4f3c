import Provenance.Rows.Source
import Provenance.Settings

/-!
# Planning the columns of a derived table

Before any row is made it is decided for every column whether it is computed, filled with a default or left
out. Columns that an expression names have to be there in the source tables. A speculative column that the
schema has is an ordinary one; one that it does not have is up to the policy, once for each column that
needs it.
-/

namespace Provenance

/-- How a column is filled. -/
inductive ColumnPlan where
  | compute (column : Column) (expr : Expr)
  | fill (column : Column) (value : Scalar)

/-- The column that is filled. -/
def ColumnPlan.column : ColumnPlan → Column
  | .compute column _ | .fill column _ => column

namespace Plan

/-- The first speculative column of an expression that the schema does not have. Those that it has must be
there in the source tables. -/
def missingCube? (c : Catalog) (sources : List SourceTable) (e : Expr) :
    Except Error (Option CubeColumn) :=
  let params := e.cubeParams
  match params.find? fun p => c.hasColumn p.toColumn && !anyHasColumn sources p.toColumn with
  | some p => .error (.unresolvedColumn p.toColumn)
  | none => .ok (params.find? fun p => !c.hasColumn p.toColumn)

/-- Accepts a filter whose predicate needs no speculative column that the schema does not have: no policy
could stand in for it. -/
def checkFilter (c : Catalog) (sources : List SourceTable) : Approach → Except Error Unit
  | .filter _ predicate => do
    match ← missingCube? c sources predicate with
    | some p => .error (.unresolvedSpeculative p)
    | none => .ok ()
  | _ => .ok ()

/-- How a column is filled, if it is not left out. -/
def column (c : Catalog) (policy : SpeculativePolicy) (sources : List SourceTable) (table : String)
    (col : Column) : Except Error (Option ColumnPlan) :=
  match col.kind with
  | .field _ => .error (.violation (.derivedOwnsField table col.name))
  | .function _ e _ =>
    match e.columnParams.find? fun name => !anyHasColumn sources name with
    | some name => .error (.unresolvedColumn name)
    | none => do
      match ← missingCube? c sources e with
      | none => pure (some (.compute col e))
      | some p =>
        match policy with
        | .abort => .error (.unresolvedSpeculative p)
        | .skip => pure none
        | .default value => pure (some (.fill col value))

/-- The columns that are filled, in the order of their declaration. -/
def columns (c : Catalog) (policy : SpeculativePolicy) (sources : List SourceTable) (table : String)
    (cols : List Column) : Except Error (List ColumnPlan) := do
  pure ((← cols.mapM (column c policy sources table)).filterMap id)

end Plan

end Provenance
