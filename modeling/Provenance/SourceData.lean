import Provenance.Error
import Provenance.Json.Parse

/-!
# Supplied records

Source data are records by the names of their tables. A record is a raw value for each of some columns;
nothing is made of it before its table is populated.
-/

namespace Provenance

/-- Raw values by the names of their columns, in the order of the names. -/
abbrev SourceRecord := List (String × Json)

/-- Records by the names of their tables, in the order of the names. -/
structure SourceData where
  tables : List (String × List SourceRecord)

namespace SourceData

/-- No records. -/
def empty : SourceData := ⟨[]⟩

/-- The data with the records of one table, in place of those it had. -/
def insert (d : SourceData) (table : String) (records : List SourceRecord) : SourceData :=
  ⟨Json.setField table records d.tables⟩

/-- The records of a table. A table without any is empty. -/
def records (d : SourceData) (table : String) : List SourceRecord := (d.tables.lookup table).getD []

/-- The names of the tables. -/
def tableNames (d : SourceData) : List String := d.tables.map Prod.fst

/-- The record that a value is; a value that is no object is a record without values. -/
def recordOf : Json → SourceRecord
  | .object fields => fields
  | _ => []

/-- The records of one table read from an array of objects. -/
def readRecords? : Json → Option (List SourceRecord)
  | .array items => items.mapM Json.toObject?
  | _ => none

/-- The data read from a value with sorted and single fields. -/
def ofJson? : Json → Option SourceData
  | .object fields => do
    let tables ← fields.mapM fun field => (readRecords? field.2).map fun records => (field.1, records)
    pure ⟨tables⟩
  | _ => none

/-- The data that a JSON text holds. -/
def ofText (text : String) : Except Error SourceData :=
  match (readAll? text).bind ofJson? with
  | some d => .ok d
  | none => .error (.invalid (.unreadable .sourceData))
where
  /-- The value of the text, all of whose tables are read, also those that a later one replaces. -/
  readAll? (text : String) : Option Json := do
    let document ← Json.parse? text
    match document with
    | .object fields => if (fields.mapM fun field => readRecords? field.2).isSome then
        document.read? Json.depthLimit else none
    | _ => none

/-- The data as a document. -/
def toJson (d : SourceData) : Json :=
  .object (d.tables.map fun table => (table.1, .array (table.2.map .object)))

end SourceData

end Provenance
