import Provenance.Error
import Provenance.Text.Basic

/-!
# Raw values as payloads

A value of a supplied record becomes a payload of the data type that its field declares. Null is a payload
of every data type; numerals are also read from texts, blank space around them being ignored.
-/

namespace Provenance.Scalar

/-- The integer that a raw value stands for. -/
def integerOf? : Json → Option Integer
  | .int n => Integer.ofInt? n
  | .text s => Integer.read? (Text.trim s)
  | _ => none

/-- The text of a raw number. -/
def numeralOf? : Json → Option String
  | .int n => some (Text.Digits.intText n)
  | .float x => some (String.ofList x.text)
  | _ => none

/-- The decimal that a raw value stands for; a number goes through its text. -/
def decimalOf? : Json → Option Decimal
  | .text s => Decimal.read? (Text.trim s)
  | raw => do Decimal.read? (← numeralOf? raw)

/-- The payload that a raw value stands for in a field of a data type, if it stands for one. -/
def ofRaw? (type : DataType) : Json → Option Scalar
  | .null => some .null
  | raw =>
    match type with
    | .integer => (integerOf? raw).map .int
    | .decimal => (decimalOf? raw).map .decimal
    | .text =>
      match raw with
      | .text s => some (.text s)
      | raw => (numeralOf? raw).map .text
    | .boolean =>
      match raw with
      | .bool b => some (.bool b)
      | _ => none

/-- The payload that a raw value stands for in a field of a data type. -/
def coerce (type : DataType) (raw : Json) : Except Error Scalar :=
  match ofRaw? type raw with
  | some s => .ok s
  | none => .error (.mismatch (.raw raw type))

end Provenance.Scalar
