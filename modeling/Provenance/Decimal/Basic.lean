import Provenance.Number.Rounding

/-!
# Decimals

A decimal is a coefficient below `2 ^ 96` and the number of its digits that follow the point. The scale
is kept: `1.50` and `1.5` are different decimals with one value. Order and equality of values ignore the
scale and the sign of zero.
-/

namespace Provenance

/-- The decimal `coefficient / 10 ^ scale`, negated when `negative` holds. -/
structure Decimal where
  negative : Bool
  coefficient : Nat
  scale : Nat
  coefficient_lt : coefficient < 1 <<< 96
  scale_le : scale ≤ 28
  deriving DecidableEq

namespace Decimal

/-- The largest scale. -/
def maxScale : Nat := 28

/-- The decimal with these parts, if they are within the bounds. -/
def make? (negative : Bool) (coefficient scale : Nat) : Option Decimal :=
  if h : coefficient < 1 <<< 96 ∧ scale ≤ 28 then some ⟨negative, coefficient, scale, h.1, h.2⟩
  else none

/-- Zero without digits after the point. -/
def zero : Decimal := ⟨false, 0, 0, by decide, by decide⟩

instance : Inhabited Decimal := ⟨zero⟩

/-- Whether the value is zero. -/
def isZero (d : Decimal) : Bool := d.coefficient == 0

/-- The coefficient with its sign. -/
def signed (d : Decimal) : Int := if d.negative then -(d.coefficient : Int) else d.coefficient

/-- An integer of at most 64 bits as a decimal. -/
def ofInt (n : Int) (h : n.natAbs < 1 <<< 96 := by omega) : Decimal :=
  ⟨decide (n < 0), n.natAbs, 0, h, by decide⟩

/-- The order of the values: both coefficients are taken at the sum of the scales. -/
def compare (a b : Decimal) : Ordering :=
  Ord.compare (a.signed * Nat.pow 10 b.scale) (b.signed * Nat.pow 10 a.scale)

/-- Whether two decimals have one value. -/
def eqv (a b : Decimal) : Bool := a.compare b == .eq

/-- The other sign, also of zero. -/
def neg (d : Decimal) : Decimal := { d with negative := !d.negative }

/-- The value without its sign. -/
def abs (d : Decimal) : Decimal := { d with negative := false }

/-- A coefficient without the zeros that end it, so far as they follow the point, and its scale. -/
def stripZeros (coefficient : Nat) : Nat → Nat × Nat
  | 0 => (coefficient, 0)
  | scale + 1 =>
    if coefficient % 10 = 0 then stripZeros (coefficient / 10) scale else (coefficient, scale + 1)

theorem stripZeros_le (coefficient scale : Nat) :
    (stripZeros coefficient scale).1 ≤ coefficient ∧ (stripZeros coefficient scale).2 ≤ scale := by
  induction scale generalizing coefficient with
  | zero => simp [stripZeros]
  | succ scale ih =>
    rw [stripZeros]
    split
    · have := ih (coefficient / 10)
      exact ⟨Nat.le_trans this.1 (Nat.div_le_self _ _), Nat.le_succ_of_le this.2⟩
    · simp

/-- The same value with the least scale; zero loses its sign. -/
def normalize (d : Decimal) : Decimal :=
  if d.isZero then zero
  else
    ⟨d.negative, (stripZeros d.coefficient d.scale).1, (stripZeros d.coefficient d.scale).2,
      Nat.lt_of_le_of_lt (stripZeros_le _ _).1 d.coefficient_lt,
      Nat.le_trans (stripZeros_le _ _).2 d.scale_le⟩

end Decimal

end Provenance
