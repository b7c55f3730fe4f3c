import Provenance.Number.Rounding
import Provenance.Text.Digits

/-!
# Double-precision numbers

Finite binary64 numbers as exact dyadic fractions, the nearest one to a decimal numeral, and the
shortest decimal digits that read back as a given number. All computations are on
natural numbers, so nothing here depends on floating-point hardware.
-/

namespace Provenance.Number

/-- The finite binary64 number `mantissa * 2 ^ exponent`, negated when `negative` holds. The mantissa
has 53 bits, or the exponent is the least one, `-1074`. -/
structure Double where
  negative : Bool
  mantissa : Nat
  exponent : Int
  deriving DecidableEq, Repr

namespace Double

/-- A fraction multiplied by a power of two. -/
def scaleTwo (n d : Nat) (q : Int) : Nat × Nat :=
  if 0 ≤ q then (n <<< q.toNat, d) else (n, d <<< (-q).toNat)

/-- The double nearest to `n / d`, ties to the even mantissa, or nothing beyond the largest one. -/
def nearest? (negative : Bool) (n d : Nat) : Option Double :=
  if n = 0 then some ⟨negative, 0, -1074⟩
  else
    let least : Int := max (-1074) ((n.log2 : Int) - (d.log2 : Int) - 53)
    let wide := scaleTwo n d (-least)
    let q := if 1 <<< 53 ≤ wide.1 / wide.2 then least + 1 else least
    let exact := scaleTwo n d (-q)
    let m := halfEven exact.1 exact.2
    let rounded : Nat × Int := if m = 1 <<< 53 then (1 <<< 52, q + 1) else (m, q)
    if rounded.2 ≤ 971 then some ⟨negative, rounded.1, rounded.2⟩ else none

/-- The magnitude of a double as a fraction. -/
def fraction (x : Double) : Nat × Nat := scaleTwo x.mantissa 1 x.exponent

/-- The double nearest to `significand * 10 ^ exponent`. Nothing is read when the number is too large;
the two tests in front keep a huge exponent from being computed. -/
def ofParts? (negative : Bool) (significand : Nat) (exponent : Int) : Option Double :=
  if significand = 0 then some ⟨negative, 0, -1074⟩
  else if 310 < exponent then none
  else if exponent + (Text.Digits.write significand).length < -330 then some ⟨negative, 0, -1074⟩
  else if 0 ≤ exponent then nearest? negative (significand * Nat.pow 10 exponent.toNat) 1
  else nearest? negative significand (Nat.pow 10 (-exponent).toNat)

/-! ## Shortest digits -/

/-- Decimal digits without trailing zeros, as a number, and the power of ten of the last of them. -/
structure Digits where
  coefficient : Nat
  power : Int
  deriving DecidableEq, Repr

/-- The digits without their trailing zeros. -/
def Digits.strip (d : Digits) : Digits :=
  if h : d.coefficient ≠ 0 ∧ d.coefficient % 10 = 0 then
    Digits.strip ⟨d.coefficient / 10, d.power + 1⟩
  else d
termination_by d.coefficient
decreasing_by
  have := h.1
  exact Nat.div_lt_self (Nat.pos_of_ne_zero this) (by decide)

/-- The power of ten of the leading digit of a positive fraction. -/
def leadingPower (n d : Nat) : Int :=
  if d ≤ n then ((Text.Digits.write (n / d)).length : Int) - 1
  else -((Text.Digits.write ((d + n - 1) / n - 1)).length : Int)

/-- A fraction divided by a power of ten. -/
def overPowTen (n d : Nat) (k : Int) : Nat × Nat :=
  if 0 ≤ k then (n, d * Nat.pow 10 k.toNat) else (n * Nat.pow 10 (-k).toNat, d)

/-- Of the two neighbours of `x` among the multiples of `10 ^ k`, the nearest one that reads back as
`x`; of two equally near, the even one. -/
def gridPoint? (x : Double) (k : Int) : Option Nat :=
  let atQuarters (quarters : Nat) : Nat × Nat :=
    let f := scaleTwo quarters 1 (x.exponent - 2)
    overPowTen f.1 f.2 k
  let low :=
    atQuarters (if x.mantissa = 1 <<< 52 ∧ x.exponent ≠ -1074 then 4 * x.mantissa - 1
      else 4 * x.mantissa - 2)
  let high := atQuarters (4 * x.mantissa + 2)
  let exact := atQuarters (4 * x.mantissa)
  let reads (c : Nat) : Bool :=
    if x.mantissa % 2 = 0 then low.1 ≤ c * low.2 && c * high.2 ≤ high.1
    else low.1 < c * low.2 && c * high.2 < high.1
  let down := exact.1 / exact.2
  let near := halfEven exact.1 exact.2
  let far := if near = down then down + 1 else down
  if reads near then some near else if reads far then some far else none

/-- The fewest decimal digits that read back as the given number. -/
def shortest (x : Double) : Digits :=
  if x.mantissa = 0 then ⟨0, 0⟩
  else
    let f := x.fraction
    let top := leadingPower f.1 f.2
    let found := (List.range 17).findSome? fun (i : Nat) =>
      (x.gridPoint? (top - i)).map fun c => (⟨c, top - i⟩ : Digits)
    (found.getD ⟨0, 0⟩).strip

/-- A sign, if any, before the digits of a magnitude. -/
def signed (negative : Bool) (magnitude : List Char) : List Char :=
  if negative then '-' :: magnitude else magnitude

/-- Digits with a decimal point where `power` puts it; no point when nothing follows it. -/
def positional (d : Digits) : List Char :=
  let digits := Text.Digits.write d.coefficient
  if 0 ≤ d.power then
    if d.coefficient = 0 then ['0'] else digits ++ List.replicate d.power.toNat '0'
  else
    let places := (-d.power).toNat
    let padded := List.replicate (places + 1 - digits.length) '0' ++ digits
    padded.take (padded.length - places) ++ '.' :: padded.drop (padded.length - places)

/-- The shortest digits in positional notation, without an exponent. -/
def plainText (x : Double) : List Char := signed x.negative (positional x.shortest)

/-- The shortest digits as a number of a document: positional from `1e-5` up to below `1e16`, with a
point and a digit after it, and with an exponent that has a sign elsewhere. -/
def text (x : Double) : List Char :=
  let d := x.shortest
  let digits := Text.Digits.write d.coefficient
  let lead := d.power + digits.length - 1
  signed x.negative <|
    if x.mantissa = 0 then ['0', '.', '0']
    else if -5 ≤ lead ∧ lead ≤ 15 then
      if 0 ≤ d.power then positional d ++ ['.', '0'] else positional d
    else
      digits.take 1 ++ (if digits.length = 1 then [] else '.' :: digits.drop 1) ++
        'e' :: (if lead < 0 then '-' else '+') :: Text.Digits.write lead.natAbs

end Double

end Provenance.Number
