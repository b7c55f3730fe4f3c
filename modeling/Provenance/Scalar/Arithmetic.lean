import Provenance.Error

/-!
# Operations on scalars

Comparison, arithmetic and negation. Nothing compared or computed with is nothing; integers and decimals
are compared by their values but never computed with together; a result out of range is an error.
-/

namespace Provenance

namespace Integer

/-- The result of an operation in unbounded integers, division going toward zero. -/
def exact (op : ArithOp) (a b : Int) : Int :=
  match op with
  | .add => a + b
  | .sub => a - b
  | .mul => a * b
  | .div => a.tdiv b

/-- The result of an operation, if it is in range. -/
def arith? (op : ArithOp) (a b : Integer) : Option Integer := ofInt? (exact op a.val b.val)

end Integer

namespace Decimal

/-- The result of an operation, if it is in range. -/
def arith? (op : ArithOp) (a b : Decimal) : Option Decimal :=
  match op with
  | .add => a.add? b
  | .sub => a.sub? b
  | .mul => a.mul? b
  | .div => a.div? b

end Decimal

namespace Scalar

/-- Whether a predicate with this value keeps a row: nothing does not. -/
def holds : Scalar → Except Error Bool
  | .bool b => .ok b
  | .null => .ok false
  | other => .error (.mismatch (.predicate other))

/-- The order of two payloads; there is none when one of them is nothing. -/
def compare : Scalar → Scalar → Except Error (Option Ordering)
  | .null, _ | _, .null => .ok none
  | .int a, .int b => .ok (some (Ord.compare a.val b.val))
  | .decimal a, .decimal b => .ok (some (a.compare b))
  | .int a, .decimal b => .ok (some (a.toDecimal.compare b))
  | .decimal a, .int b => .ok (some (a.compare b.toDecimal))
  | .text a, .text b => .ok (some (Ord.compare a b))
  | .bool a, .bool b => .ok (some (Ord.compare a b))
  | a, b => .error (.mismatch (.comparison a b))

/-- A result, or the overflow that there is none. -/
def orOverflow (op : ArithOp) (a b : Scalar) : Option Scalar → Except Error Scalar
  | some s => .ok s
  | none => .error (.overflow (.arithmetic op a b))

/-- The result of an operation on two numbers of one kind. -/
def arith (op : ArithOp) (a b : Scalar) : Except Error Scalar :=
  match a, b with
  | .null, _ | _, .null => .ok .null
  | .int x, .int y =>
    if op = .div ∧ y.val = 0 then .error .divisionByZero
    else orOverflow op a b ((x.arith? op y).map .int)
  | .decimal x, .decimal y =>
    if op = .div ∧ y.isZero then .error .divisionByZero
    else orOverflow op a b ((x.arith? op y).map .decimal)
  | a, b => .error (.mismatch (.arithmetic op a b))

/-- The number with the other sign. -/
def negate : Scalar → Except Error Scalar
  | .null => .ok .null
  | .int i =>
    match Integer.ofInt? (-i.val) with
    | some n => .ok (.int n)
    | none => .error (.overflow (.negation i))
  | .decimal d => .ok (.decimal d.neg)
  | other => .error (.mismatch (.negation other))

end Scalar

end Provenance
