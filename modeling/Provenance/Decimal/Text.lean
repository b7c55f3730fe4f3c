import Provenance.Decimal.Arithmetic
import Provenance.Text.Digits

/-!
# The text of a decimal

A decimal is written with all the digits of its scale. It is read from digits with at most one point
and underscores between them, digits beyond those that fit being rounded, or from such a text and an
exponent.
-/

namespace Provenance.Decimal

/-- The digits of a magnitude, with a point in front of the last `scale` of them. -/
def magnitude (coefficient scale : Nat) : List Char :=
  let digits := Text.Digits.write coefficient
  if scale = 0 then digits
  else
    let padded := List.replicate (scale + 1 - digits.length) '0' ++ digits
    padded.take (padded.length - scale) ++ '.' :: padded.drop (padded.length - scale)

/-- The text as a list of characters. -/
def chars (d : Decimal) : List Char :=
  if d.negative then '-' :: magnitude d.coefficient d.scale else magnitude d.coefficient d.scale

/-- The text of a decimal. -/
def text (d : Decimal) : String := String.ofList d.chars

/-! ## Reading digits -/

/-- The decimal with these parts whose zero has no sign. -/
def unsigned? (negative : Bool) (coefficient scale : Nat) : Option Decimal :=
  (make? negative coefficient scale).map unsignZero

/-- The decimal that is rounded by the first character there is no room for: a half goes up. When
rounding up leaves no room either, the last digit is rounded away as well. -/
def roundAt (negative : Bool) (coefficient scale : Nat) (next : Char) : Option Decimal :=
  if Text.Digits.isDigit next ∨ next = '_' ∨ next = '.' then
    if Text.Digits.isDigit next ∧ 5 ≤ Text.Digits.value next then
      if coefficient + 1 < 1 <<< 96 then unsigned? negative (coefficient + 1) scale
      else if scale = 0 then none
      else unsigned? negative ((coefficient + 5) / 10) (scale - 1)
    else unsigned? negative coefficient scale
  else none

/-- The decimal whose digits so far make the coefficient, `point` telling whether a point was among
them and `started` whether there was any. What follows the first digit beyond the largest scale, or
beyond the largest coefficient, is not looked at. -/
def readDigits? (negative point started : Bool) (coefficient scale : Nat) :
    List Char → Option Decimal
  | [] => if started then unsigned? negative coefficient scale else none
  | c :: rest =>
    if point ∧ 28 ≤ scale then roundAt negative coefficient scale c
    else if Text.Digits.isDigit c then
      let next := coefficient * 10 + Text.Digits.value c
      if next < 1 <<< 96 then
        readDigits? negative point true next (if point then scale + 1 else scale) rest
      else if point then roundAt negative coefficient scale c
      else none
    else if c = '.' ∧ ¬ point then readDigits? negative true started coefficient scale rest
    else if c = '_' ∧ started then readDigits? negative point started coefficient scale rest
    else none

/-- The decimal that a text without an exponent stands for. -/
def readPlain? : List Char → Option Decimal
  | '-' :: rest => readDigits? true false false 0 0 rest
  | '+' :: rest => readDigits? false false false 0 0 rest
  | text => readDigits? false false false 0 0 text

/-! ## Reading an exponent -/

/-- The number that a row of digits stands for, after a plus sign or not. -/
def natural? (text : List Char) : Option Nat :=
  let digits := match text with
    | '+' :: rest => rest
    | text => text
  if digits ≠ [] ∧ digits.all Text.Digits.isDigit then some (Text.Digits.read digits) else none

/-- The value divided by ten as often as told; digits beyond the largest scale are rounded, a half
going up. -/
def shiftDown? (d : Decimal) (places : Nat) : Option Decimal :=
  if 28 < places then none
  else if 28 < d.scale + places then
    make? d.negative (Number.halfUp d.coefficient (Nat.pow 10 (d.scale + places - 28))) 28
  else make? d.negative d.coefficient (d.scale + places)

/-- The value multiplied by ten as often as told: digits move before the point, and once none are left
zeros are added. -/
def shiftUp? (d : Decimal) (places : Nat) : Option Decimal :=
  if places ≤ d.scale then make? d.negative d.coefficient (d.scale - places)
  else if 28 < places then none
  else do
    let first ← make? false (Nat.pow 10 (min places 19)) 0
    let second ← make? false (Nat.pow 10 (places - 19)) 0
    let shifted ← d.mul? first
    let shifted ← if 19 < places then shifted.mul? second else some shifted
    pure shifted.normalize

/-- The decimal that a text with an exponent stands for. -/
def readScientific? (text : List Char) : Option Decimal := do
  let isMark (c : Char) : Bool := c = 'e' || c = 'E'
  let base ← readPlain? (text.takeWhile fun c => !isMark c)
  match (text.dropWhile fun c => !isMark c) with
  | _ :: '-' :: exponent => base.shiftDown? (← natural? exponent)
  | _ :: exponent => base.shiftUp? (← natural? exponent)
  | [] => none

/-- The decimal that a text stands for. -/
def read? (text : String) : Option Decimal :=
  readPlain? text.toList <|> readScientific? text.toList

end Provenance.Decimal
