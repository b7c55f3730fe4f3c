import Provenance.Edge.Log
import Provenance.Functions
import Provenance.Settings
import Provenance.SourceData
import Provenance.Store.Basic
import Provenance.Trail

/-!
# The state of a run

A run is set up from a catalog, settings, functions and records. What changes while it goes on is its trail,
the tables materialized so far with the edges between them, and what it remembers of tables that failed.
-/

namespace Provenance

/-- What a run is set up from. -/
structure Setup where
  catalog : Catalog
  settings : Settings
  functions : Functions
  data : SourceData

/-- A table that could not be materialized. -/
structure Failure where
  entity : Entity
  table : String
  code : String
  message : String

/-- What changes while a run goes on. -/
structure State where
  trail : Trail
  store : Store
  log : EdgeLog
  /-- The tables materialized so far, their creations and the columns that hold values. -/
  initialized : List Id
  /-- The tables that failed, in the order of their failures. -/
  failures : List Failure
  /-- How often an entity was asked for that was there already. -/
  skipped : Nat
  /-- The first identity that is free. -/
  nextId : Nat
  /-- The time that new things get. -/
  now : Timestamp

namespace State

/-- The state at the beginning of a trail. -/
def start (trail : Trail) (nextId : Nat) (now : Timestamp) : State :=
  ⟨trail, .empty, .empty, [], [], 0, nextId, now⟩

/-- Whether an entity with an identity is there already. -/
def isInitialized (s : State) (id : Id) : Bool := s.initialized.contains id

/-- The state after an entity was asked for that is there already. -/
def skip (s : State) : State := { s with skipped := s.skipped + 1 }

/-- The failure of a table. -/
def failureOf? (s : State) (table : Id) : Option Failure :=
  s.failures.find? fun failure => failure.entity.id = table

/-- The state after a table failed. -/
def recordFailure (s : State) (table : Table) (e : Error) : State :=
  { s with failures := s.failures ++ [⟨table.entity, table.name, e.code, e.message⟩] }

/-- A table about to be materialized, with the first identity that is free. -/
def opening (s : State) (table : Table) : Populated := .start ⟨s.nextId⟩ s.trail.id table s.now

/-- The state after a table was materialized with values in some columns. -/
def recordSuccess (s : State) (table : Table) (columns : List Id) : State :=
  { s with
    initialized := table.id :: (table.creation.map Creation.id).toList ++ columns ++ s.initialized }

end State

/-- What a step of a run gives, and the state after it. -/
abbrev Outcome := Except Error Unit × State

end Provenance
