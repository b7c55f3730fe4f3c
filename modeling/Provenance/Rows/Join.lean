import Provenance.Rows.Key
import Provenance.Rows.Source

/-!
# Joins

Tables are joined one after another on equal keys. Every table is indexed by its keys before partners are
looked for in it. Nothing is not equal to anything, so a key with nothing in it finds no partner.
-/

namespace Provenance

namespace JoinStep

/-- The key of a row of the step's table: its cells in the right columns, if it has them all. -/
def rightKey? (step : JoinStep) (r : SourceRow) : Option Key :=
  step.on.mapM fun key => (r.cell? key.right).map Cell.payload

/-- The key of a binding: its cells in the left columns. -/
def leftKey (step : JoinStep) (b : Binding) : Except Error Key :=
  step.on.mapM fun key => b.payload key.left

/-- A row of the step's table under its key, unless there is nothing in the key. -/
def indexed? (step : JoinStep) (r : SourceRow) : Option (Key × SourceRow) := do
  let key ← step.rightKey? r
  if key.hasNull then none else some (key, r)

/-- The rows of the step's table by their keys. -/
def index (step : JoinStep) (right : SourceTable) : KeyIndex SourceRow :=
  .ofList (right.rows.filterMap step.indexed?)

/-- The rows that a key finds. -/
def partners (index : KeyIndex SourceRow) (key : Key) : List SourceRow :=
  if key.hasNull then [] else index.find key

/-- A binding with each of its partners, or what becomes of it without one. -/
def extend (step : JoinStep) (right : SourceTable) (index : KeyIndex SourceRow) (b : Binding) :
    Except Error (List Binding) := do
  match partners index (← step.leftKey b), step.kind with
  | [], .inner => pure []
  | [], .leftOuter => pure [b.extend right none]
  | rows, _ => pure (rows.map fun r => b.extend right (some r))

/-- Accepts a step whose table is not joined yet and whose left columns are of tables that are. -/
def check (step : JoinStep) (joined : List String) : Except Error Unit :=
  if step.table ∈ joined then .error (.invalid (.repeatedJoin step.table))
  else
    match step.on.find? fun key => key.left.table ∉ joined with
    | some key => .error (.unresolvedColumn key.left)
    | none => .ok ()

end JoinStep

/-- The source table with a name. -/
def sourceTable (sources : List SourceTable) (name : String) : Except Error SourceTable :=
  match sources.find? fun t => t.name = name with
  | some t => .ok t
  | none => .error (.unknownTable name)

/-- The bindings after the remaining steps of a join. -/
def joinSteps (sources : List SourceTable) :
    List JoinStep → List String → List Binding → Except Error (List Binding)
  | [], _, bindings => .ok bindings
  | step :: rest, joined, bindings => do
    step.check joined
    let right ← sourceTable sources step.table
    let extended ← bindings.mapM (step.extend right (step.index right))
    joinSteps sources rest (joined ++ [step.table]) extended.flatten

/-- The bindings of a join. -/
def joinRows (sources : List SourceTable) (base : SourceTable) (steps : List JoinStep) :
    Except Error (List Binding) :=
  joinSteps sources steps [base.name] (base.rows.map (Binding.single base))

end Provenance
