import Provenance.Initialization.Basic
import Provenance.Report.Basic
import Provenance.Snapshot.Basic
import Provenance.View

/-!
# Runs

An engine holds a compiled schema and can start any number of runs. A run owns its trail: it materializes
tables on demand, answers what anything was made from, and in the end hands over all that it brought about.
-/

namespace Provenance

/-- What runs are started with. -/
structure Engine where
  catalog : Catalog
  settings : Settings
  functions : Functions

/-- One run of an engine over supplied records. -/
structure Run where
  setup : Setup
  state : State

/-- A run that begins, its trail having the given identity and later things the ones after it. -/
def Engine.start (engine : Engine) (firstId : Nat) (now : Timestamp) (name : String)
    (context : List (String × Json)) (data : SourceData) : Run :=
  let trail := Trail.start ⟨firstId⟩ name now context engine.catalog.id engine.catalog.fingerprint
  ⟨⟨engine.catalog, engine.settings, engine.functions, data⟩, .start trail (firstId + 1) now⟩

namespace Run

/-- What a step gives, and the run after it. -/
def step (r : Run) (f : State → Outcome) : Except Error Unit × Run :=
  let (result, state) := f r.state
  (result, { r with state })

/-- Asks for an entity and everything it depends on. -/
def init (r : Run) (e : Entity) : Except Error Unit × Run := r.step (Provenance.init r.setup e)

/-- Asks for the table with a name. -/
def initTable (r : Run) (name : String) : Except Error Unit × Run :=
  match r.setup.catalog.table name with
  | .ok table => r.init table.entity
  | .error e => (.error e, r)

/-- The view of a table that is materialized. -/
def tableView (r : Run) (name : String) : Except Error TableView :=
  TableView.ofStore r.setup.catalog r.state.store name

/-- Asks for a table and gives its view. -/
def materialize (r : Run) (name : String) : Except Error TableView × Run :=
  match r.initTable name with
  | (.ok (), r) => (r.tableView name, r)
  | (.error e, r) => (.error e, r)

/-- Asks for a table and ends the trail: it is completed if the table is there. A trail that has ended
already stays as it is, and the outcome tells its status. -/
def execute (r : Run) (target : String) : RunOutcome × Run :=
  let (result, r) := r.initTable target
  let status : Trail.Status := match result with
    | .ok _ => .completed
    | .error _ => .failed
  let trail := r.state.trail.finish status r.state.now
  (⟨trail.id, target, trail.status, r.state.failures⟩, { r with state := { r.state with trail } })

/-- Starts again: a new trail with the same name, context and records, and nothing materialized. -/
def reset (r : Run) : Run :=
  let s := r.state
  let c := r.setup.catalog
  let trail := Trail.start ⟨s.nextId⟩ s.trail.name s.now s.trail.context c.id c.fingerprint
  { r with state := .start trail (s.nextId + 1) s.now }

/-- The thing that an entity is. -/
def lookup (r : Run) (e : Entity) : Option Subject :=
  lookupEntity r.setup.catalog r.state.store e

/-- What an entity was made from, by at most the given number of edges. -/
def lineageWithin (r : Run) (e : Entity) (depth : Option Nat) : Except Error LineageReport :=
  match r.lookup e with
  | none => .error (.dangling e)
  | some _ => do
    let log := r.state.log
    let reached ← log.transitive e depth
    let leaves := (reached.map Reached.entity).filter fun e => (log.ownedBy e.id).isEmpty
    pure ⟨e, log.ownedBy e.id, reached, leaves, depth⟩

/-- What an entity was made from, by at most as many edges as the settings say. -/
def lineage (r : Run) (e : Entity) : Except Error LineageReport :=
  r.lineageWithin e r.setup.settings.maxDepth

/-- The whole lineage of the trail. -/
def graph (r : Run) : LineageGraph :=
  let ends := distinct (r.state.log.edges.flatMap fun edge => [edge.owner, edge.target])
  ⟨ends.map fun e => ⟨e, labelOf r.setup.catalog r.state.store e⟩, r.state.log.edges⟩

/-- How much the run has brought about. -/
def summary (r : Run) : Summary :=
  let s := r.state
  ⟨s.trail.id, s.trail.status, s.store.populated.length, s.store.rows.length, s.store.values.length,
    s.log.countByKind, s.skipped, s.failures⟩

/-- Ends the run and hands over all that it brought about. A trail that is still running is completed. -/
def finish (r : Run) : Snapshot :=
  let s := r.state
  ⟨s.trail.finish .completed s.now, s.store.populated, s.store.rows, s.store.values, s.log.edges,
    s.failures⟩

end Run

end Provenance
