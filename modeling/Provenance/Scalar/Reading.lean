import Provenance.Document
import Provenance.Scalar.Basic

/-!
# Scalars read from a document

The inverse of how scalars are written in definitions and saved trails. Decimals may also be given as
numbers.
-/

namespace Provenance

open Document

/-- A data type read from its name. -/
def DataType.read? [Document α] (depth : Nat) (v : α) : Option DataType := do
  DataType.ofName? (← name? depth v)

/-- A scalar read from a document in which `depth` more lists and records may stand inside each
other. -/
def Scalar.read? [Document α] (depth : Nat) (v : α) : Option Scalar :=
  match variant? v with
  | some ("null", none) => some .null
  | some (kind, some content) =>
    if depth = 0 then none
    else
      match kind with
      | "null" => if isEmptyVariant content then some .null else none
      | "bool" => (bool? content).map .bool
      | "int" => ((int? content).bind Integer.ofInt?).map .int
      | "decimal" => (decimal? content).map .decimal
      | "text" => (text? content).map .text
      | _ => none
  | _ => none

end Provenance
