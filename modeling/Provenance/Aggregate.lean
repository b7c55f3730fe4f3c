import Provenance.Scalar.Arithmetic

/-!
# Aggregates

Functions over the payloads of a group. Nulls are ignored: a count is that of the other payloads, and where
there are none it is zero and everything else is null. The payloads of a group are of one data type.
-/

namespace Provenance.AggregateFn

/-- Accepts payloads of the data type of the first one. -/
def requireOneType (func : AggregateFn) (first : Scalar) (values : List Scalar) : Except Error Unit :=
  match values.find? fun v => v.dataType? ≠ first.dataType? with
  | some v => .error (.mismatch (.mixedAggregate func first.dataType? v.dataType?))
  | none => .ok ()

/-- Accepts numbers. -/
def requireNumeric (func : AggregateFn) (first : Scalar) : Except Error Unit :=
  match first with
  | .int _ | .decimal _ => .ok ()
  | other => .error (.mismatch (.nonNumericAggregate func other))

/-- The sum from left to right. -/
def sumFrom (first : Scalar) (rest : List Scalar) : Except Error Scalar :=
  rest.foldlM (fun total v => Scalar.arith .add total v) first

/-- The first of the payloads that no other one is before in an order. -/
def extreme (wanted : Ordering) (first : Scalar) (rest : List Scalar) : Except Error Scalar :=
  rest.foldlM
    (fun best v => do
      let order ← v.compare best
      pure (if order = some wanted then v else best))
    first

/-- A total with one more number. -/
def addToTotal (count : Nat) (total : Decimal) (v : Scalar) : Except Error Decimal :=
  match total.add? (v.toDecimal?.getD Decimal.zero) with
  | some total => .ok total
  | none => .error (.overflow (.averageTotal count))

/-- The sum of the payloads as decimals, divided by their number. -/
def average (values : List Scalar) : Except Error Scalar := do
  let total ← values.foldlM (addToTotal values.length) Decimal.zero
  match total.div? (Integer.ofCount values.length).toDecimal with
  | some d => .ok (.decimal d.normalize)
  | none => .error (.overflow .average)

/-- The function over the payloads of a group. -/
def apply (func : AggregateFn) (values : List Scalar) : Except Error Scalar :=
  let present := values.filter fun v => !v.isNull
  match func, present with
  | .count, present => .ok (.int (Integer.ofCount present.length))
  | _, [] => .ok .null
  | func, first :: rest => do
    func.requireOneType first rest
    match func with
    | .count => .ok (.int (Integer.ofCount present.length))
    | .sum => do
      func.requireNumeric first
      sumFrom first rest
    | .min => extreme .lt first rest
    | .max => extreme .gt first rest
    | .avg => do
      func.requireNumeric first
      average (first :: rest)

end Provenance.AggregateFn
