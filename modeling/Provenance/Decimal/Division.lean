import Provenance.Decimal.Basic

/-!
# Quotients of decimals

Long division by the coefficient of the divisor. Digits are worked out nine at a time, or as many as there is
room for, until nothing is left over; a quotient that does not come to an end is rounded, half to even.
Zeros that end digits so worked out are dropped again.
-/

namespace Provenance.Decimal

open Number (halfEven)

/-- A division under way: the digits so far, what is left over, and the scale of the last digit. The
scale is negative while digits before the point are still missing. -/
structure LongDivision where
  coefficient : Nat
  remainder : Nat
  scale : Int

namespace LongDivision

/-- The beginning of a division. -/
def start (dividend divisor : Nat) (scale : Int) : LongDivision :=
  ⟨dividend / divisor, dividend % divisor, scale⟩

/-- The division with some more digits. -/
def extend (divisor : Nat) (q : LongDivision) (digits : Nat) : LongDivision :=
  let rest := q.remainder * Nat.pow 10 digits
  ⟨q.coefficient * Nat.pow 10 digits + rest / divisor, rest % divisor, q.scale + digits⟩

/-- How many digits are worked out at once. -/
def mostDigits : Nat := 9

/-- Whether there is room for some more digits. -/
def hasRoom (q : LongDivision) (digits : Nat) : Bool :=
  q.coefficient * Nat.pow 10 digits < 1 <<< 96 && q.scale + digits ≤ 28

/-- For how many more digits there is room. -/
def room (q : LongDivision) : Nat :=
  ((List.range (mostDigits + 1)).reverse.find? q.hasRoom).getD 0

/-- The digits rounded with what is left over, without the last one if they do not fit otherwise. -/
def round? (divisor : Nat) (q : LongDivision) : Option (Nat × Nat) :=
  let exact := q.coefficient * divisor + q.remainder
  let rounded := halfEven exact divisor
  if q.scale < 0 then none
  else if rounded < 1 <<< 96 then some (rounded, q.scale.toNat)
  else if q.scale = 0 then none
  else some (halfEven exact (10 * divisor), q.scale.toNat - 1)

/-- A coefficient and its scale without a group of zeros that end it, so far as they follow the point. -/
def dropGroup (zeros : Nat) (d : Nat × Nat) : Nat × Nat :=
  if zeros ≤ d.2 ∧ d.1 % Nat.pow 10 zeros = 0 then (d.1 / Nat.pow 10 zeros, d.2 - zeros) else d

/-- A coefficient and its scale without groups of eight zeros, so long as the coefficient is a multiple
of the 32nd power of two. -/
def dropEights (coefficient scale : Nat) : Nat × Nat :=
  if h : 8 ≤ scale then
    if coefficient % 1 <<< 32 = 0 ∧ coefficient % 100000000 = 0 then
      dropEights (coefficient / 100000000) (scale - 8)
    else (coefficient, scale)
  else (coefficient, scale)
termination_by scale

/-- A coefficient and its scale without zeros that end it. Other than in groups of eight no more than
seven are dropped. -/
def dropZeros (d : Nat × Nat) : Nat × Nat :=
  dropGroup 1 (dropGroup 2 (dropGroup 4 (dropEights d.1 d.2)))

/-- The coefficient and the scale of the quotient, if it fits. It takes no more than `steps` steps, as
every step adds to the scale. -/
def finish? (divisor : Nat) : Nat → LongDivision → Option (Nat × Nat)
  | 0, _ => none
  | steps + 1, q =>
    if q.remainder = 0 then
      if 0 ≤ q.scale then some (q.coefficient, q.scale.toNat)
      else
        let digits := min mostDigits (-q.scale).toNat
        if q.coefficient * Nat.pow 10 digits < 1 <<< 96 then finish? divisor steps (q.extend divisor digits)
        else none
    else
      let digits := q.room
      if digits = 0 ∨ (digits < mostDigits ∧ q.scale + digits < 0) then q.round? divisor
      else
        let next := q.extend divisor digits
        if 1 <<< 96 ≤ next.coefficient then next.round? divisor
        else finish? divisor steps next

end LongDivision

/-- The quotient, for a divisor that is not zero. An exact one has at least the difference of the scales
as its scale. -/
def div? (a b : Decimal) : Option Decimal :=
  if a.isZero then some zero
  else do
    let q := LongDivision.start a.coefficient b.coefficient (a.scale - b.scale)
    let worked ← q.finish? b.coefficient 57
    let (coefficient, scale) := if q.remainder = 0 then worked else LongDivision.dropZeros worked
    let negative := coefficient ≠ 0 && (a.negative ^^ b.negative)
    make? negative coefficient scale

end Provenance.Decimal
