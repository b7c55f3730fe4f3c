import Provenance.Scalar.Basic

/-!
# Expressions

The functions of derived columns and the predicates of filters, and what can be read off an expression
without evaluating it: the columns it names and whether it aggregates.
-/

namespace Provenance

/-- The members of a list at their first places. -/
def distinct [DecidableEq α] (xs : List α) : List α :=
  xs.foldl (fun seen x => if x ∈ seen then seen else seen ++ [x]) []

/-- A column of a table, by their names. -/
structure ColumnName where
  table : String
  column : String
  deriving DecidableEq

/-- The name of a column after that of its table. -/
def ColumnName.text (name : ColumnName) : String := name.table ++ "." ++ name.column

/-- A column of a cube that a schema need not have yet. -/
structure CubeColumn where
  cube : String
  column : String
  deriving DecidableEq

/-- The column that a cube has once the schema has it. -/
def CubeColumn.toColumn (name : CubeColumn) : ColumnName := ⟨name.cube, name.column⟩

/-- Operations on one operand. -/
inductive UnaryOp where
  | not
  | neg
  | isNull
  deriving DecidableEq, Repr

/-- Operations on two operands. -/
inductive BinaryOp where
  | add
  | sub
  | mul
  | div
  | eq
  | ne
  | lt
  | le
  | gt
  | ge
  | and
  | or
  deriving DecidableEq, Repr

/-- Functions over the rows of a group. -/
inductive AggregateFn where
  | sum
  | count
  | min
  | max
  | avg
  deriving DecidableEq, Repr

namespace UnaryOp

/-- The name of an operation. -/
def name : UnaryOp → String
  | .not => "not"
  | .neg => "neg"
  | .isNull => "is_null"

/-- All operations. -/
def all : List UnaryOp := [.not, .neg, .isNull]

/-- The operation with a name. -/
def ofName? (name : String) : Option UnaryOp := all.find? fun op => op.name == name

theorem ofName?_name (op : UnaryOp) : ofName? op.name = some op := by cases op <;> decide

end UnaryOp

namespace BinaryOp

/-- The name of an operation. -/
def name : BinaryOp → String
  | .add => "add"
  | .sub => "sub"
  | .mul => "mul"
  | .div => "div"
  | .eq => "eq"
  | .ne => "ne"
  | .lt => "lt"
  | .le => "le"
  | .gt => "gt"
  | .ge => "ge"
  | .and => "and"
  | .or => "or"

/-- All operations. -/
def all : List BinaryOp := [.add, .sub, .mul, .div, .eq, .ne, .lt, .le, .gt, .ge, .and, .or]

/-- The operation with a name. -/
def ofName? (name : String) : Option BinaryOp := all.find? fun op => op.name == name

theorem ofName?_name (op : BinaryOp) : ofName? op.name = some op := by cases op <;> decide

end BinaryOp

namespace AggregateFn

/-- The name of a function. -/
def name : AggregateFn → String
  | .sum => "sum"
  | .count => "count"
  | .min => "min"
  | .max => "max"
  | .avg => "avg"

/-- All functions. -/
def all : List AggregateFn := [.sum, .count, .min, .max, .avg]

/-- The function with a name. -/
def ofName? (name : String) : Option AggregateFn := all.find? fun func => func.name == name

theorem ofName?_name (func : AggregateFn) : ofName? func.name = some func := by
  cases func <;> decide

end AggregateFn

/-- An expression over the columns of a row, or of the rows of a group. -/
inductive Expr where
  | literal (value : Scalar)
  | column (name : ColumnName)
  | speculative (name : CubeColumn)
  /-- Whether a text is a member of a hierarchy at or below the given one. -/
  | member (hierarchy ancestor : String) (of : Expr)
  | unary (op : UnaryOp) (arg : Expr)
  | binary (op : BinaryOp) (left right : Expr)
  | call (function : String) (args : List Expr)
  /-- An expression evaluated in every row of the group. -/
  | aggregate (func : AggregateFn) (arg : Expr)
  /-- A function of the rows themselves. -/
  | aggregateRows (func : AggregateFn)

namespace Expr

mutual

/-- The columns named by the leaves, in their order. -/
def columns : Expr → List ColumnName
  | .column name => [name]
  | .member _ _ e | .unary _ e | .aggregate _ e => e.columns
  | .binary _ e e' => e.columns ++ e'.columns
  | .call _ args => columnsOfAll args
  | .literal _ | .speculative _ | .aggregateRows _ => []

def columnsOfAll : List Expr → List ColumnName
  | [] => []
  | e :: rest => e.columns ++ columnsOfAll rest

end

mutual

/-- The columns of cubes named by the leaves, in their order. -/
def cubeColumns : Expr → List CubeColumn
  | .speculative name => [name]
  | .member _ _ e | .unary _ e | .aggregate _ e => e.cubeColumns
  | .binary _ e e' => e.cubeColumns ++ e'.cubeColumns
  | .call _ args => cubeColumnsOfAll args
  | .literal _ | .column _ | .aggregateRows _ => []

def cubeColumnsOfAll : List Expr → List CubeColumn
  | [] => []
  | e :: rest => e.cubeColumns ++ cubeColumnsOfAll rest

end

mutual

/-- Whether anything in the expression is taken over the rows of a group. -/
def aggregates : Expr → Bool
  | .aggregate .. | .aggregateRows _ => true
  | .member _ _ e | .unary _ e => e.aggregates
  | .binary _ e e' => e.aggregates || e'.aggregates
  | .call _ args => anyAggregates args
  | .literal _ | .column _ | .speculative _ => false

def anyAggregates : List Expr → Bool
  | [] => false
  | e :: rest => e.aggregates || anyAggregates rest

end

/-- The number of leaves that name a column, speculative or not. -/
def parameterCount (e : Expr) : Nat := e.columns.length + e.cubeColumns.length

/-- The columns that the expression reads, each once. -/
def columnParams (e : Expr) : List ColumnName := distinct e.columns

/-- The columns of cubes that the expression reads, each once. -/
def cubeParams (e : Expr) : List CubeColumn := distinct e.cubeColumns

end Expr

end Provenance
