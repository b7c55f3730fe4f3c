import Provenance.Error
import Provenance.Json.Parse
import Provenance.Scalar.Reading
import Provenance.Text.Basic

/-!
# Settings of the engine

What the engine does where a schema leaves a choice: how deep lineage is followed, what happens to
speculative columns that a schema does not have, whether records may have more fields than their table,
and whether the lineage of definitions is recorded. A document sets them, and variables of the environment
have the last word.
-/

namespace Provenance

open Document

/-- What becomes of a column that needs a speculative column the schema does not have. -/
inductive SpeculativePolicy where
  /-- Its table fails. -/
  | abort
  /-- Its table is derived without it. -/
  | skip
  /-- It holds a given payload in every row. -/
  | default (value : Scalar)

/-- Settings of the engine. -/
structure Settings where
  maxDepth : Option Nat
  policy : SpeculativePolicy
  strictColumns : Bool
  recordDefinitions : Bool

namespace SpeculativePolicy

/-- A policy as a document. -/
def encode : SpeculativePolicy → Json
  | .abort => .object [("mode", .text "abort")]
  | .skip => .object [("mode", .text "skip")]
  | .default value => .object [("mode", .text "default"), ("value", value.encode)]

/-- A payload read from a JSON text. -/
def scalarOfText? (text : String) : Option Scalar := do
  Scalar.read? Json.depthLimit (← Json.parse? text)

/-- The policy that a text stands for. A default that does not read as a payload is a text. -/
def ofText (text : String) : Except Error SpeculativePolicy :=
  let trimmed := Text.trim text
  if trimmed = "abort" then .ok .abort
  else if trimmed = "skip" then .ok .skip
  else
    let opening := "default:".toList
    if trimmed.toList.take opening.length = opening then
      let raw := String.ofList (trimmed.toList.drop opening.length)
      .ok (.default ((scalarOfText? raw).getD (.text raw)))
    else .error (.invalid (.unknownPolicy trimmed))

/-- The policy with a mode, given what stands beside it. -/
def ofMode? [Document α] (depth : Nat) (mode : String) (value : Option α) :
    Option SpeculativePolicy :=
  let isEmpty : Bool := match value with
    | none => true
    | some v => isMissing v
  match mode with
  | "abort" => if isEmpty then some .abort else none
  | "skip" => if isEmpty then some .skip else none
  | "default" => do some (.default (← Scalar.read? depth (← value)))
  | _ => none

/-- A policy read from a record with a mode and a value. A value that stands before its mode is held
until the mode is known. -/
def read? [Document α] : Nat → α → Option SpeculativePolicy
  | 0, _ => none
  | depth + 1, v => do
    let fields ← fields? v
    match ← named? ["mode", "value"] fields with
    | [some mode, value] =>
      let mode ← text? mode
      let known := (fields.map Prod.fst).filter fun name => name = "mode" || name = "value"
      match value, known with
      | some value, "value" :: _ => ofMode? depth mode (some (← hold? depth value))
      | value, _ => ofMode? depth mode value
    | _ => none

end SpeculativePolicy

namespace Settings

/-- The settings where nothing else is said. -/
def standard : Settings := ⟨none, .abort, false, true⟩

/-- Settings as a document. -/
def encode (s : Settings) : Json :=
  .object [
    ("max_lineage_depth", match s.maxDepth with
      | none => .null
      | some n => .int n),
    ("speculative_policy", s.policy.encode),
    ("strict_source_columns", .bool s.strictColumns),
    ("record_definition_edges", .bool s.recordDefinitions)]

/-- One more than the largest number that a depth can be. -/
def depthBound : Nat := 1 <<< 64

/-- A depth that may be missing. -/
def readDepth? [Document α] (v : α) : Option (Option Nat) :=
  if isMissing v then some none
  else do
    let n ← count? v
    if n < depthBound then some (some n) else none

/-- Settings read from a record. What it leaves out is as it is where nothing else is said. -/
def read? [Document α] (depth : Nat) (v : α) : Option Settings := do
  let names := ["max_lineage_depth", "speculative_policy", "strict_source_columns",
    "record_definition_edges"]
  match depth, ← record? names v with
  | depth + 1, [maxDepth, policy, strict, definitions] =>
    let maxDepth ← match maxDepth with
      | none => some standard.maxDepth
      | some v => readDepth? v
    let policy ← match policy with
      | none => some standard.policy
      | some v => SpeculativePolicy.read? depth v
    let strict ← match strict with
      | none => some standard.strictColumns
      | some v => bool? v
    let definitions ← match definitions with
      | none => some standard.recordDefinitions
      | some v => bool? v
    some ⟨maxDepth, policy, strict, definitions⟩
  | _, _ => none

/-! ## Variables of the environment -/

/-- The variable that sets how deep lineage is followed. -/
def maxDepthKey : String := "LINEAGE_MAX_LINEAGE_DEPTH"

/-- The variable that sets the policy. -/
def policyKey : String := "LINEAGE_SPECULATIVE_POLICY"

/-- The variable that sets whether records may have more fields than their table. -/
def strictKey : String := "LINEAGE_STRICT_SOURCE_COLUMNS"

/-- The variable that sets whether the lineage of definitions is recorded. -/
def definitionsKey : String := "LINEAGE_RECORD_DEFINITION_EDGES"

/-- The variables that settings are read from. -/
def keys : List String := [maxDepthKey, policyKey, strictKey, definitionsKey]

/-- A depth as a text: a number, or nothing for no bound. -/
def depthOfText (text : String) : Except Error (Option Nat) :=
  let trimmed := Text.trim text
  if trimmed = "" ∨ trimmed = "none" then .ok none
  else
    match Text.Digits.readCount? trimmed.toList with
    | some n => .ok (some n)
    | none => .error (.invalid (.unreadableSetting maxDepthKey trimmed))

/-- A switch as a text, letters of the plain alphabet in either case. -/
def switchOfText (key text : String) : Except Error Bool :=
  let word := String.ofList ((Text.trim text).toList.map Char.toLower)
  if word ∈ ["1", "true", "yes", "on"] then .ok true
  else if word ∈ ["0", "false", "no", "off"] then .ok false
  else .error (.invalid (.unreadableSetting key word))

/-- What a variable sets, or what was there if it is not set. -/
def override (env : String → Option String) (key : String) (read : String → Except Error β)
    (current : β) : Except Error β :=
  match env key with
  | some text => read text
  | none => .ok current

/-- The settings with those that the environment sets. -/
def applyOverrides (s : Settings) (env : String → Option String) : Except Error Settings := do
  let maxDepth ← override env maxDepthKey depthOfText s.maxDepth
  let policy ← override env policyKey SpeculativePolicy.ofText s.policy
  let strict ← override env strictKey (switchOfText strictKey) s.strictColumns
  let definitions ← override env definitionsKey (switchOfText definitionsKey) s.recordDefinitions
  pure ⟨maxDepth, policy, strict, definitions⟩

end Settings

end Provenance
