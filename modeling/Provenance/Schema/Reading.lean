import Provenance.Expr.Reading
import Provenance.Json.Parse
import Provenance.Schema.Basic

/-!
# Schemas read from a document

The inverse of how schemas are written. Tables, hierarchies and derived tables may be left out, and so may
descriptions, texts and languages.
-/

namespace Provenance

open Document

/-- A field read from a record. -/
def FieldDefinition.read? [Document α] (depth : Nat) (v : α) : Option FieldDefinition := do
  match depth, ← record? ["name", "type"] v with
  | depth + 1, [some name, some type] => some ⟨← text? name, ← DataType.read? depth type⟩
  | _, _ => none

/-- A supplied table read from a record. -/
def TableDefinition.read? [Document α] (depth : Nat) (v : α) : Option TableDefinition := do
  match depth, ← record? ["name", "fields"] v with
  | depth + 2, [some name, some fields] =>
    some ⟨← text? name, ← list? (FieldDefinition.read? depth) fields⟩
  | _, _ => none

/-- A link of a hierarchy read from a record. -/
def HierarchyLink.read? [Document α] (depth : Nat) (v : α) : Option HierarchyLink := do
  match depth, ← record? ["parent", "child"] v with
  | _ + 1, [some parent, some child] => some ⟨← text? parent, ← text? child⟩
  | _, _ => none

/-- A hierarchy read from a record. -/
def HierarchyDefinition.read? [Document α] (depth : Nat) (v : α) : Option HierarchyDefinition := do
  match depth, ← record? ["name", "edges"] v with
  | depth + 2, [some name, some links] =>
    some ⟨← text? name, ← list? (HierarchyLink.read? depth) links⟩
  | _, _ => none

/-- A join key read from a record. -/
def JoinKey.read? [Document α] (depth : Nat) (v : α) : Option JoinKey := do
  match depth, ← record? ["left", "right"] v with
  | depth + 1, [some left, some right] => some ⟨← ColumnName.read? depth left, ← text? right⟩
  | _, _ => none

/-- A step of a join read from a record. -/
def JoinStep.read? [Document α] (depth : Nat) (v : α) : Option JoinStep := do
  match depth, ← record? ["table", "kind", "on"] v with
  | depth + 2, [some table, some kind, some on] =>
    some ⟨← text? table, ← JoinKind.ofName? (← name? (depth + 1) kind),
      ← list? (JoinKey.read? depth) on⟩
  | _, _ => none

namespace Approach

/-- The parts of an approach, once its name is known. -/
def readParts? (depth : Nat) (name : String) (read : List String → Option (List (Option Held))) :
    Option Approach :=
  match name with
  | "filter" => do
    match ← read ["source", "predicate"] with
    | [some source, some predicate] =>
      some (.filter (← text? source) (← Expr.read? depth predicate))
    | _ => none
  | "enrichment" => do
    match ← read ["source"] with
    | [some source] => some (.enrichment (← text? source))
    | _ => none
  | "join" => do
    match ← read ["base", "steps"] with
    | [some base, some steps] =>
      some (.join (← text? base) (← list? (JoinStep.read? depth) steps))
    | _ => none
  | "aggregate" => do
    match ← read ["source", "group_by"] with
    | [some source, some keys] =>
      some (.group (← text? source) (← list? (ColumnName.read? depth) keys))
    | _ => none
  | _ => none

/-- An approach read from a value held: a record with its name in one of the fields, or a list that begins
with its name. -/
def ofHeld? (depth : Nat) : Held → Option Approach
  | ⟨.object fields⟩ => do
    let tags := fields.filter (fun field => field.1 == "approach")
    match tags with
    | [(_, .text name)] =>
      let parts := Held.ofFields (fields.filter fun field => field.1 != "approach")
      readParts? depth name fun names => named? names parts
    | _ => none
  | ⟨.array (.text name :: items)⟩ =>
    readParts? depth name fun names => positional? names (Held.ofList items)
  | _ => none

/-- An approach read from a document. -/
def read? [Document α] (depth : Nat) (v : α) : Option Approach := do
  ofHeld? depth (← hold? depth v)

end Approach

/-- The language of a function that names none. -/
def FunctionDefinition.defaultLanguage : String := "expr"

/-- A column of a derived table read from a record. -/
def FunctionDefinition.read? [Document α] (depth : Nat) (v : α) : Option FunctionDefinition := do
  match depth, ← record? ["name", "text", "language", "expr"] v with
  | depth + 1, [some name, text, language, some expr] =>
    let language ← match language with
      | none => some defaultLanguage
      | some language => text? language
    some ⟨← text? name, ← optionalText? text, language, ← Expr.read? depth expr⟩
  | _, _ => none

/-- A derived table read from a record. -/
def DerivedDefinition.read? [Document α] (depth : Nat) (v : α) : Option DerivedDefinition := do
  match depth, ← record? ["name", "description", "creation", "columns"] v with
  | depth + 2, [some name, description, some creation, some columns] =>
    some ⟨← text? name, ← optionalText? description, ← Approach.read? (depth + 1) creation,
      ← list? (FunctionDefinition.read? depth) columns⟩
  | _, _ => none

namespace Schema

/-- A schema read from a record. -/
def read? [Document α] (depth : Nat) (v : α) : Option Schema := do
  match depth, ← record? ["name", "tables", "hierarchies", "derived_tables"] v with
  | depth + 2, [some name, tables, hierarchies, derived] =>
    some ⟨← text? name, ← listOrEmpty? (TableDefinition.read? depth) tables,
      ← listOrEmpty? (HierarchyDefinition.read? depth) hierarchies,
      ← listOrEmpty? (DerivedDefinition.read? depth) derived⟩
  | _, _ => none

/-- The schema that a JSON text holds. -/
def ofJsonText? (text : String) : Option Schema := do
  read? Json.depthLimit (← Json.parse? text)

end Schema

end Provenance
