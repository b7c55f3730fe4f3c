import Provenance.Decimal.Text
import Provenance.Json.Basic

/-!
# Values of a document

A reader of definitions asks a value of a document what it holds: a text, the items of a list, the fields
of a record, one of several variants. Formats differ in what they answer, and `Document` is what a reader
needs of a format. A part of a document that decides by itself how it is to be read is first held back as
a whole, and then answers as `Held` says.
-/

namespace Provenance

/-- A value that was read as a whole before it was known what it stands for. -/
structure Held where
  json : Json

/-- What a value of a format answers to a reader. -/
class Document (α : Type) where
  /-- Whether an optional part with this value is missing. -/
  isMissing : α → Bool
  bool? : α → Option Bool
  int? : α → Option Int
  /-- An integer without a minus sign. -/
  count? : α → Option Nat
  text? : α → Option String
  decimal? : α → Option Decimal
  /-- The items of a list. -/
  items? : α → Option (List α)
  /-- The fields of a record, in their order. -/
  fields? : α → Option (List (String × α))
  /-- The fields of a record that names none of them. -/
  unnamed? : α → Option (List α)
  /-- The name of a variant, and what stands under it. -/
  variant? : α → Option (String × Option α)
  /-- Whether a variant that holds nothing may have this value under its name. -/
  isEmptyVariant : α → Bool
  /-- The fields of a variant that is a record. -/
  variantFields? : α → Option (List (String × α))
  /-- The fields of a variant that is a record and names none of them. -/
  variantUnnamed? : α → Option (List α)
  /-- The value as a whole, if no more than the given number of lists and records stand inside each
  other. -/
  hold? : Nat → α → Option Held

namespace Document

/-- The value of a field, if no name is repeated among the fields asked for. -/
def named? (names : List String) (fields : List (String × α)) : Option (List (Option α)) :=
  let known := (fields.map Prod.fst).filter (names.contains ·)
  if known.Nodup then some (names.map fun name => List.lookup name fields) else none

/-- The values of fields in the order of their names; fewer may be given, but not more. -/
def positional? (names : List String) (items : List α) : Option (List (Option α)) :=
  if items.length ≤ names.length then some ((List.range names.length).map (items[·]?)) else none

variable [Document α]

/-- The fields of a record with the given names. Fields with other names do no harm. -/
def record? (names : List String) (v : α) : Option (List (Option α)) :=
  match fields? v with
  | some fields => named? names fields
  | none => (unnamed? v).bind (positional? names)

/-- The fields, with the given names, of a variant that is a record. -/
def variantRecord? (names : List String) (v : α) : Option (List (Option α)) :=
  match variantFields? v with
  | some fields => named? names fields
  | none => (variantUnnamed? v).bind (positional? names)

/-- The name of a variant that holds nothing. -/
def name? (depth : Nat) (v : α) : Option String :=
  match variant? v with
  | some (name, none) => some name
  | some (name, some content) => if 0 < depth ∧ isEmptyVariant content then some name else none
  | none => none

/-- A text that may be missing. -/
def optionalText? : Option α → Option (Option String)
  | none => some none
  | some v => if isMissing v then some none else (text? v).map some

/-- A list whose items are read one after another. -/
def list? (read : α → Option β) (v : α) : Option (List β) := do (← items? v).mapM read

/-- A list that is empty when it is missing. -/
def listOrEmpty? (read : α → Option β) : Option α → Option (List β)
  | none => some []
  | some v => list? read v

end Document

namespace Json

/-- The decimal that a value stands for: a numeral without its exponent, or a text. -/
def toDecimal? : Json → Option Decimal
  | .int n => Decimal.make? (decide (n < 0)) n.natAbs 0
  | .float x => Decimal.readPlain? x.plainText
  | .text s => Decimal.read? s
  | _ => none

/-- The text of a value that is one. -/
def toText? : Json → Option String
  | .text s => some s
  | _ => none

/-- The truth value of a value that is one. -/
def toBool? : Json → Option Bool
  | .bool b => some b
  | _ => none

/-- The integer of a value that is one. -/
def toInt? : Json → Option Int
  | .int n => some n
  | _ => none

/-- The integer of a value that is one and not negative. -/
def toCount? : Json → Option Nat
  | .int n => if 0 ≤ n then some n.toNat else none
  | _ => none

/-- The items of an array. -/
def toItems? : Json → Option (List Json)
  | .array items => some items
  | _ => none

/-- Whether a value is null. -/
def isNull : Json → Bool
  | .null => true
  | _ => false

/-- The only field of an object, or a text alone. -/
def toVariant? : Json → Option (String × Option Json)
  | .text s => some (s, none)
  | .object [(name, value)] => some (name, some value)
  | _ => none

instance : Document Json where
  isMissing := isNull
  bool? := toBool?
  int? := toInt?
  count? := toCount?
  text? := toText?
  decimal? := toDecimal?
  items? := toItems?
  fields? := toObject?
  unnamed? := toItems?
  variant? := toVariant?
  isEmptyVariant := isNull
  variantFields? := toObject?
  variantUnnamed? := toItems?
  hold? depth v := if (v.read? depth).isSome then some ⟨v⟩ else none

end Json

namespace Held

/-- A list of values held. -/
def ofList (items : List Json) : List Held := items.map Held.mk

/-- The fields of a record held. -/
def ofFields (fields : List (String × Json)) : List (String × Held) :=
  fields.map fun field => (field.1, ⟨field.2⟩)

/-- Whether a variant that holds nothing may have this value under its name. -/
def isNothing : Json → Bool
  | .null | .object [] => true
  | _ => false

instance : Document Held where
  isMissing v := v.json.isNull
  bool? v := v.json.toBool?
  int? v := v.json.toInt?
  count? v := v.json.toCount?
  text? v := v.json.toText?
  decimal? v := v.json.toDecimal?
  items? v := v.json.toItems?.map ofList
  fields? v := v.json.toObject?.map ofFields
  unnamed? v := v.json.toItems?.map ofList
  variant? v := v.json.toVariant?.map fun variant => (variant.1, variant.2.map Held.mk)
  isEmptyVariant v := isNothing v.json
  variantFields? v := v.json.toObject?.map ofFields
  variantUnnamed? v := v.json.toItems?.map ofList
  hold? _ v := some v

end Held

end Provenance
