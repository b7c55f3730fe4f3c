import Std.Data.HashMap
import Provenance.Catalog.Basic

/-!
# Indexes of catalogs

So that no lookup goes through a whole catalog, the places of its tables and columns are kept under their names
and identities. Under one key only the last place is kept.
-/

namespace Provenance

section Places

variable {α κ : Type} [BEq κ] [Hashable κ]

/-- The place of the last member with each key. Members may be without one. -/
def placeByKey (key : α → Option κ) (xs : List α) : Std.HashMap κ (Fin xs.length) :=
  .ofList ((List.finRange xs.length).filterMap fun place => (key (xs.get place)).map fun k => (k, place))

/-- Keeps one more place under a key, after those that are there. -/
def addPlace {n : Nat} (places : Std.HashMap κ (Array (Fin n))) (k : κ) (place : Fin n) :
    Std.HashMap κ (Array (Fin n)) :=
  places.insert k ((places.getD k #[]).push place)

/-- The places of all members with each key, in their order. -/
def placesByKey (key : α → κ) (xs : List α) : Std.HashMap κ (Array (Fin xs.length)) :=
  (List.finRange xs.length).foldl (fun places place => addPlace places (key (xs.get place)) place) ∅

end Places

namespace Catalog

/-- Places of a catalog, with the kinds of its entities and with its hierarchies. -/
structure Index (c : Catalog) where
  tableByName : Std.HashMap String (Fin c.tables.length)
  tableById : Std.HashMap Id (Fin c.tables.length)
  tableByCreation : Std.HashMap Id (Fin c.tables.length)
  columnById : Std.HashMap Id (Fin c.columns.length)
  columnsByTable : Std.HashMap Id (Array (Fin c.columns.length))
  hierarchyByName : Std.HashMap String Hierarchy
  kindById : Std.HashMap Id Entity.Kind

/-- The index of a catalog. -/
def index (c : Catalog) : c.Index where
  tableByName := placeByKey (fun t => some t.name) c.tables
  tableById := placeByKey (fun t => some t.id) c.tables
  tableByCreation := placeByKey (fun t => t.creation.map Creation.id) c.tables
  columnById := placeByKey (fun col => some col.id) c.columns
  columnsByTable := placesByKey Column.table c.columns
  hierarchyByName := .ofList (c.hierarchies.map fun h => (h.name, h))
  kindById := .ofList (c.entities.map fun e => (e.id, e.kind))

/-! ## Lookups

Each of them is the lookup of the same name in `Catalog`, but goes by the places that are kept. -/

namespace Index

variable {c : Catalog} (x : c.Index)

def table? (name : String) : Option Table := x.tableByName[name]?.map c.tables.get

def table (name : String) : Except Error Table :=
  match x.table? name with
  | some t => .ok t
  | none => .error (.unknownTable name)

def tableById? (id : Id) : Option Table := x.tableById[id]?.map c.tables.get

def tableOfCreation? (id : Id) : Option Table := x.tableByCreation[id]?.map c.tables.get

def creationById? (id : Id) : Option Creation := do (← x.tableOfCreation? id).creation

/-- The columns of a table. A table without columns is not kept. -/
def columnsOf (table : Id) : List Column := (x.columnsByTable.getD table #[]).toList.map c.columns.get

def column? (name : ColumnName) : Option Column := do
  let table ← x.table? name.table
  (x.columnsOf table.id).find? fun col => col.name = name.column

def hasColumn (name : ColumnName) : Bool := (x.column? name).isSome

def columnById? (id : Id) : Option Column := x.columnById[id]?.map c.columns.get

def hierarchy (name : String) : Except Error Hierarchy :=
  match x.hierarchyByName[name]? with
  | some h => .ok h
  | none => .error (.unknownHierarchy name)

/-- Whether an entity is one of the catalog, told by the kind that is kept under its identity. -/
def contains (e : Entity) : Bool := x.kindById[e.id]? = some e.kind

end Index

end Catalog

end Provenance
