import Provenance.Initialization.Commit
import Provenance.Initialization.Derive

/-!
# Initialization

Asking for an entity materializes the table it belongs to, after the tables that this one is derived from.
Every table is materialized at most once in a trail. A table that failed is not tried again, and a table
that is needed while it is being materialized itself fails with the path that leads back to it.
-/

namespace Provenance

/-- Asks for entities one after another, up to the first that fails. -/
def initAll (step : Entity → State → Outcome) : List Entity → State → Outcome
  | [], s => (.ok (), s)
  | e :: rest, s =>
    match step e s with
    | (.ok (), s) => initAll step rest s
    | failed => failed

/-- The part of a path from an entity on, closed by that entity. -/
def closePath (path : List Entity) (e : Entity) : List Entity := path.dropWhile (· ≠ e) ++ [e]

/-- A table as it is materialized: from its records, or from its source tables in a store. -/
def stage (setup : Setup) (store : Store) (populated : Populated) (table : Table) :
    Except Error Draft :=
  match table.creation with
  | none => Populate.draft setup populated table
  | some creation => do
    let sources ← creation.approach.sourceTables.mapM (bindSource setup.catalog store)
    Derive.draft setup populated table creation sources

/-- The state after a draft of a table was made, or was not. -/
def settle (setup : Setup) (table : Table) (draft : Except Error Draft) (s : State) : Outcome :=
  match draft with
  | .error e => (.error e, s.recordFailure table e)
  | .ok d =>
    match d.commit setup s with
    | (.ok (), s) => (.ok (), s.recordSuccess table d.extent.columns)
    | (.error e, s) => (.error e, s.recordFailure table e)

/-- Materializes a table while those on `path` are under way. No more tables can be under way at once than
there are, and `depth` is how many more there may be. -/
def initTable (setup : Setup) : Nat → List Entity → Entity → State → Outcome
  | 0, path, _, s => (.error (.cyclic path), s)
  | depth + 1, path, e, s =>
    match setup.catalog.tableById? e.id with
    | none => (.error (.dangling e), s)
    | some table =>
      if s.isInitialized table.id then (.ok (), s.skip)
      else
        match s.failureOf? table.id with
        | some failure => (.error (.failedBefore table.name failure.message), s)
        | none =>
          if table.entity ∈ path then (.error (.cyclic (closePath path table.entity)), s)
          else
            match initAll (initTable setup depth (path ++ [table.entity])) table.sources s with
            | (.ok (), s) => settle setup table (stage setup s.store (s.opening table) table) s
            | (.error e, s) => settle setup table (.error e) s

/-- The table that a definitional entity belongs to. -/
def Catalog.tableOf? (c : Catalog) (e : Entity) : Option Table :=
  match e.kind with
  | .databaseTable | .derivedTable => (c.tableById? e.id).filter fun t => t.entity = e
  | .databaseField | .function => do
    let column ← (c.columnById? e.id).filter fun column => column.entity = e
    c.tableById? column.table
  | .tableCreation => c.tableOfCreation? e.id
  | _ => none

/-- Asks for an entity. Entities of the trail are there once they are in the store. -/
def init (setup : Setup) (e : Entity) (s : State) : Outcome :=
  if s.isInitialized e.id then (.ok (), s.skip)
  else if e.kind.isDefinitional then
    match setup.catalog.tableOf? e with
    | some table => initTable setup (setup.catalog.tables.length + 1) [] table.entity s
    | none => (.error (.dangling e), s)
  else if s.store.contains e then (.ok (), s)
  else (.error (.dangling e), s)

end Provenance
