import Provenance.Aggregate
import Provenance.Functions
import Provenance.Rows.Source

/-!
# Evaluation with lineage

The value of an expression in a scope, together with everything that was read for it. Both operands of
every operation are evaluated, also where one of them would decide, so that what is read does not depend
on what the cells hold.
-/

namespace Provenance

/-- What was read, in the order of reading: the value of a cell, or nothing for an empty place. -/
abbrev Readings := List (Option Entity)

/-- The entities of a list whose identities are met for the first time. -/
def distinctById (entities : List Entity) : List Entity :=
  entities.foldl
    (fun seen e => if e.id ∈ seen.map Entity.id then seen else seen ++ [e]) []

/-- The value of an expression and the cells that it was computed from. -/
structure Evaluated where
  value : Scalar
  /-- The values that were read, each once, in the order in which they were first read. -/
  sources : List Entity
  /-- Whether an empty place was read. -/
  nullExtended : Bool

/-- A value with the readings it was computed from. -/
def Evaluated.ofReadings (value : Scalar) (readings : Readings) : Evaluated :=
  ⟨value, distinctById (readings.filterMap id), readings.any Option.isNone⟩

/-- The truth value of a logical operand; nothing is neither true nor false. -/
def Scalar.condition : Scalar → Except Error (Option Bool)
  | .null => .ok none
  | .bool b => .ok (some b)
  | other => .error (.mismatch (.condition other))

/-- A truth value, or nothing. -/
def Scalar.ofCondition : Option Bool → Scalar
  | some b => .bool b
  | none => .null

namespace UnaryOp

/-- The result of an operation. -/
def apply (op : UnaryOp) (v : Scalar) : Except Error Scalar :=
  match op with
  | .isNull => .ok (.bool v.isNull)
  | .neg => v.negate
  | .not => do pure (.ofCondition ((← v.condition).map (!·)))

end UnaryOp

namespace BinaryOp

/-- Whether a comparison holds in an order. -/
def test : BinaryOp → Ordering → Bool
  | .eq, o => o == .eq
  | .ne, o => o != .eq
  | .lt, o => o == .lt
  | .le, o => o != .gt
  | .gt, o => o == .gt
  | .ge, o => o != .lt
  | _, _ => false

/-- The conjunction of truth values of which any may be unknown. -/
def conjunction : Option Bool → Option Bool → Option Bool
  | some false, _ | _, some false => some false
  | some true, some true => some true
  | _, _ => none

/-- The disjunction of truth values of which any may be unknown. -/
def disjunction : Option Bool → Option Bool → Option Bool
  | some true, _ | _, some true => some true
  | some false, some false => some false
  | _, _ => none

/-- The result of an operation. -/
def apply (op : BinaryOp) (a b : Scalar) : Except Error Scalar :=
  match op with
  | .add => a.arith .add b
  | .sub => a.arith .sub b
  | .mul => a.arith .mul b
  | .div => a.arith .div b
  | .and => do pure (.ofCondition (conjunction (← a.condition) (← b.condition)))
  | .or => do pure (.ofCondition (disjunction (← a.condition) (← b.condition)))
  | comparison => do
    match ← a.compare b with
    | some order => pure (.bool (comparison.test order))
    | none => pure .null

end BinaryOp

namespace Expr

/-- The payload in a column of a binding. -/
def readCell (b : Binding) (name : ColumnName) : Except Error (Scalar × Readings) := do
  match ← b.lookup name with
  | some cell => pure (cell.payload, [some cell.value])
  | none => pure (.null, [none])

/-- The value of a column in a scope. In a group a column that was grouped by has one value, which stands
for the cell of every member. -/
def readColumn (s : Scope) (name : ColumnName) : Except Error (Scalar × Readings) :=
  match s with
  | .row b => readCell b name
  | .group key columns members =>
    match columns.idxOf? name with
    | none => .error (.invalid (.ungrouped name))
    | some i => do
      let cells ← members.mapM fun b => readCell b name
      pure (key.getD i .null, cells.flatMap Prod.snd)

/-- The value of an aggregate without an argument: the number of rows, for a count. -/
def countRows (func : AggregateFn) (s : Scope) : Except Error Scalar :=
  match func with
  | .count => .ok (.int (Integer.ofCount s.partition.length))
  | func => .error (.invalid (.missingArgument func))

/-- Whether a text is a member of a hierarchy at or below the given one. -/
def testMember (h : Hierarchy) (ancestor : String) : Scalar → Except Error Scalar
  | .null => .ok .null
  | .text s => .ok (.bool (h.isMember s ancestor))
  | other => .error (.mismatch (.membership other))

variable (c : Catalog) (functions : Functions)

mutual

/-- The value of an expression in a scope, with all that was read for it. -/
def eval : Expr → Scope → Except Error (Scalar × Readings)
  | .literal v, _ => .ok (v, [])
  | .column name, s => readColumn s name
  | .speculative name, s =>
    if c.hasColumn name.toColumn then readColumn s name.toColumn
    else .error (.unresolvedSpeculative name)
  | .member hierarchy ancestor e, s => do
    let h ← c.hierarchy hierarchy
    let (v, readings) ← eval e s
    pure (← testMember h ancestor v, readings)
  | .unary op e, s => do
    let (v, readings) ← eval e s
    pure (← op.apply v, readings)
  | .binary op e e', s => do
    let (v, readings) ← eval e s
    let (v', readings') ← eval e' s
    pure (← op.apply v v', readings ++ readings')
  | .call function args, s => do
    let (vs, readings) ← evalAll args s
    pure (← functions.call function vs, readings)
  | .aggregate func e, s => do
    let results ← s.partition.mapM fun b => eval e (.row b)
    pure (← func.apply (results.map Prod.fst), results.flatMap Prod.snd)
  | .aggregateRows func, s => do pure (← countRows func s, [])

def evalAll : List Expr → Scope → Except Error (List Scalar × Readings)
  | [], _ => .ok ([], [])
  | e :: rest, s => do
    let (v, readings) ← eval e s
    let (vs, readings') ← evalAll rest s
    pure (v :: vs, readings ++ readings')

end

/-- The value of an expression in a scope, with its lineage. -/
def evaluate (e : Expr) (s : Scope) : Except Error Evaluated := do
  let (v, readings) ← e.eval c functions s
  pure (.ofReadings v readings)

end Expr

end Provenance
