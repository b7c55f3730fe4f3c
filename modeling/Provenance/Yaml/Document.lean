import Provenance.Document
import Provenance.Yaml.Resolution

/-!
# YAML documents as documents

What the nodes of a YAML document answer to a reader. Where a text is asked for, a scalar answers with
what is written, whatever else it might stand for. A variant is its name, or a mapping with one entry.
-/

namespace Provenance.Yaml.Node

/-- Whether nothing is written. -/
def isBlankNode : Node → Bool
  | .scalar .plain _ text => text.isEmpty
  | _ => false

/-- Whether an optional part with this value is missing. -/
def isAbsent : Node → Bool
  | .scalar .plain tag text =>
    match tag with
    | none => text.isEmpty || isNullWord text
    | some tag => tag = coreTag "null" && isNullWord text
  | _ => false

/-- The text of a scalar that may stand for a value of a type: a plain one, or a literal one with the tag
of that type. -/
def typedText? (type : String) : Node → Option String
  | .scalar .plain _ text => some text
  | .scalar .literal tag text => if tag = some (coreTag type) then some text else none
  | _ => none

/-- The text of a scalar. -/
def text? : Node → Option String
  | .scalar _ _ text => some text
  | _ => none

/-- The decimal that a scalar stands for. -/
def decimal? : Node → Option Decimal
  | .scalar style tag text => (ofScalar? style tag text).bind Json.toDecimal?
  | _ => none

/-- The items of a sequence. -/
def items? : Node → Option (List Node)
  | .sequence _ items => some items
  | node => if node.isBlankNode then some [] else none

/-- The entries of a mapping whose keys are scalars. -/
def fields? : Node → Option (List (String × Node))
  | .mapping _ entries => entries.mapM fun entry => entry.1.text?.map fun name => (name, entry.2)
  | node => if node.isBlankNode then some [] else none

/-- The name of a variant and what stands under it. -/
def variant? : Node → Option (String × Option Node)
  | .scalar style tag text => ((ofScalar? style tag text).bind Json.toText?).map fun name => (name, none)
  | .mapping tag [(name, value)] =>
    if isLocalTag tag then none else name.text?.map fun name => (name, some value)
  | _ => none

mutual

/-- The node as a whole, if no more than `depth` collections stand inside each other. -/
def toJson? (depth : Nat) : Node → Option Json
  | .scalar style tag text => ofScalar? style tag text
  | .sequence tag items =>
    if isLocalTag tag then none
    else
      match depth with
      | 0 => none
      | depth + 1 => (toJsons? depth items).map .array
  | .mapping tag entries =>
    if isLocalTag tag then none
    else
      match depth with
      | 0 => none
      | depth + 1 => (toFields? depth entries).map .object
  | .endless => none

def toJsons? (depth : Nat) : List Node → Option (List Json)
  | [] => some []
  | item :: rest => do
    let item ← item.toJson? depth
    let rest ← toJsons? depth rest
    pure (item :: rest)

/-- The entries with texts as keys. -/
def toFields? (depth : Nat) : List (Node × Node) → Option (List (String × Json))
  | [] => some []
  | (key, value) :: rest => do
    let key ← key.toJson? depth
    let value ← value.toJson? depth
    let rest ← toFields? depth rest
    match key with
    | .text name => pure ((name, value) :: rest)
    | _ => pure rest

end

instance : Document Node where
  isMissing := isAbsent
  bool? v := (v.typedText? "bool").bind boolOf?
  int? v := (v.typedText? "int").bind intOf?
  count? v := (v.typedText? "int").bind unsignedOf?
  text? := text?
  decimal? := decimal?
  items? := items?
  fields? := fields?
  unnamed? _ := none
  variant? := variant?
  isEmptyVariant _ := false
  variantFields? := fields?
  variantUnnamed? _ := none
  hold? depth v := (v.toJson? depth).map Held.mk

/-- How many collections of a text may stand inside each other. -/
def depthLimit : Nat := 128

end Provenance.Yaml.Node
