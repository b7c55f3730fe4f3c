import Provenance.Decimal.Basic

/-!
# Arithmetic on decimals

Sums and products are computed exactly and then rounded, half to even, to the largest scale
at which they fit. A result that does not fit at scale zero is an overflow.
-/

namespace Provenance.Decimal

open Number (halfEven)

/-- The decimal nearest to `coefficient / 10 ^ scale` at the largest scale, no larger than the given
one, that has room for it. -/
def fit? (negative : Bool) (coefficient scale : Nat) : Option Decimal :=
  (List.range (scale + 1)).findSome? fun dropped =>
    make? negative (halfEven coefficient (Nat.pow 10 dropped)) (scale - dropped)

/-- A decimal whose zero has no sign. -/
def unsignZero (d : Decimal) : Decimal := if d.isZero then d.abs else d

/-- The coefficient with its sign at a scale that is no smaller than the decimal's own. -/
def atScale (d : Decimal) (scale : Nat) : Int := d.signed * Nat.pow 10 (scale - d.scale)

/-- The sign that a sum of two non-zero decimals has when it is zero: that of the left one, except that
a left one of more than 32 bits with the larger scale gives the other sign. -/
def zeroSign (a b : Decimal) : Bool :=
  a.negative ^^ (decide (b.scale < a.scale) && decide (1 <<< 32 ≤ a.coefficient))

/-- The sum. A zero operand leaves the other one as it is, its scale included. -/
def add? (a b : Decimal) : Option Decimal :=
  if a.isZero then some b
  else if b.isZero then some a
  else
    let scale := max a.scale b.scale
    let sum := a.atScale scale + b.atScale scale
    fit? (if sum = 0 then zeroSign a b else decide (sum < 0)) sum.natAbs scale

/-- The difference. Taking zero away, or taking away from zero, keeps the scale of the other operand. -/
def sub? (a b : Decimal) : Option Decimal :=
  if a.isZero then some (if b.isZero then b else b.neg)
  else if b.isZero then some a
  else a.add? b.neg

/-- The product. Its scale is the sum of the scales, so far as there is room; zero times anything is
plain zero, and so is a product of two coefficients of 32 bits with more than 47 places. -/
def mul? (a b : Decimal) : Option Decimal :=
  if a.isZero ∨ b.isZero then some zero
  else
    let scale := a.scale + b.scale
    if a.coefficient < 1 <<< 32 ∧ b.coefficient < 1 <<< 32 ∧ 47 < scale then some zero
    else
      -- Digits that no decimal has room for go in the same rounding as those that do not fit.
      let negative := a.negative ^^ b.negative
      (fit? negative (a.coefficient * b.coefficient) scale).map unsignZero

end Provenance.Decimal
