import Provenance.Archive.Folder
import Provenance.Command.Arguments
import Provenance.Command.Variables
import Provenance.Loading
import Provenance.Report.Encoding
import Provenance.Run

/-!
# Commands

What the command line does: it runs one trail up to a table and writes what came of it, or writes the
fingerprint of a schema. A command that cannot do its work tells why as a chain of causes, outermost first.
-/

namespace Provenance.Command

/-! ## Causes -/

/-- A text with the lines after the first indented. -/
def indented (indent : String) (text : String) : String :=
  String.ofList (text.toList.flatMap fun c => if c = '\n' then c :: indent.toList else [c])

/-- The causes of an error, numbered if there is more than one. -/
def causeLines : List String → String
  | [] => ""
  | [cause] => "    " ++ indented "    " cause
  | causes =>
    let numbered := causes.zipIdx.map fun entry =>
      let number := Text.Digits.text entry.2
      let margin := String.ofList (List.replicate (5 - number.length) ' ')
      margin ++ number ++ ": " ++ indented "       " entry.1
    "\n".intercalate numbered

/-- The report on an error and its causes, outermost first. -/
def report : List String → String
  | [] => ""
  | [error] => "Error: " ++ error ++ "\n"
  | error :: causes => "Error: " ++ error ++ "\n\nCaused by:\n" ++ causeLines causes ++ "\n"

/-- What a command leaves behind: a text, a report on errors, and an exit code. -/
structure Outcome where
  output : String
  report : String
  code : Nat

/-- A result or the chain of causes of an error. -/
abbrev Fallible (m : Type → Type) := ExceptT (List String) m

variable [Monad m]

/-- A result whose errors get an outer cause. -/
def within (context : String) (x : Fallible m α) : Fallible m α :=
  ExceptT.adapt (context :: ·) x

/-- A result of the library. -/
def ofEngine (x : Except Error α) : Fallible m α :=
  ExceptT.mk (pure (x.mapError fun e => [e.message]))

/-- A result of the machine. -/
def ofMachine (x : m (Except FileError α)) : Fallible m α :=
  ExceptT.mk ((Except.mapError fun e => [e.message]) <$> x)

/-! ## What a command reads -/

/-- The text of a document at a path. -/
def readDocument (machine : Machine m) (kind : DocumentKind) (path : String) : Fallible m String :=
  let action := "reading " ++ kind.name ++ " " ++ path
  within (Error.inaccessible action).message (within action (ofMachine (machine.readText path)))

/-- The settings at a path, or those where nothing else is said, with those that the environment sets. -/
def loadSettings (machine : Machine m) (env : String → Option String) (path : Option String) :
    Fallible m Settings := do
  let settings ← match path with
    | some path => within ("loading engine config " ++ path) do
        ofEngine (Settings.ofYaml (← readDocument machine .settings path))
    | none => pure Settings.standard
  within ("applying LINEAGE_* overrides") (ofEngine (settings.applyOverrides env))

/-- The last part of a path. -/
def lastPart (path : String) : String :=
  String.ofList (path.toList.reverse.takeWhile (· ≠ '/')).reverse

/-- The schema that a text holds: JSON if the path of its file says so, YAML otherwise. -/
def schemaOfText (path text : String) : Except Error Schema :=
  if Folder.isJsonFile (lastPart path) then Schema.ofJson text else Schema.ofYaml text

/-- The schema at a path and its catalog, with identities from a number on. -/
def loadCatalog (machine : Machine m) (firstId : Nat) (path : String) :
    Fallible m (Schema × Catalog) :=
  within ("compiling schema " ++ path) do
    let schema ← ofEngine (schemaOfText path (← readDocument machine .schema path))
    pure (schema, ← ofEngine (schema.compile firstId))

/-- The records at a path. -/
def loadData (machine : Machine m) (path : String) : Fallible m SourceData :=
  within ("loading source data " ++ path) do
    ofEngine (SourceData.ofText (← readDocument machine .sourceData path))

/-! ## What a command writes -/

/-- The lineage of a row and of each of its cells. -/
def explanation (r : Run) (target : String) (view : TableView) (number : Nat) :
    Fallible m Json := do
  match view.rows.find? (·.number = number) with
  | none => throw [target ++ " has no row " ++ Text.Digits.text number]
  | some row =>
    let values ← row.cells.mapM fun cell =>
      within ("lineage of " ++ target ++ "." ++ cell.column) do
        pure (cell.column, (← ofEngine (r.lineage cell.value)).encode)
    let report ← within "row lineage" (ofEngine (r.lineage row.row))
    pure (.object [("row", report.encode), ("values", .object values)])

/-- The rows of a table that is materialized and, if asked for, the lineage of one of them. -/
def tableFields (r : Run) (o : RunOptions) : Fallible m (List (String × Json)) := do
  let view ← within ("reading materialized table " ++ o.target) (ofEngine (r.tableView o.target))
  match o.explainRow with
  | some number => do
    pure [("rows", view.toJson), ("explain", ← explanation r o.target view number)]
  | none => pure [("rows", view.toJson)]

/-- What a run for a table came to. -/
def runFields (r : Run) (o : RunOptions) (outcome : RunOutcome) :
    Fallible m (List (String × Json)) := do
  let rows ← match outcome.status with
    | .completed => tableFields r o
    | _ => pure []
  let graph := if o.graph then [("graph", r.graph.encode)] else []
  pure ([("trail", outcome.trail.encode), ("target", Json.text outcome.target),
    ("status", .text outcome.status.name),
    ("failures", .array (outcome.failures.map Failure.encode))] ++
    rows ++ [("summary", r.summary.encode)] ++ graph)

/-- The file of a trail in a folder, as far as it is there. -/
def readTrailFile (machine : Machine m) (path file : String) : Fallible m Folder := do
  match ← machine.readText path with
  | .ok text => pure (Folder.empty.write file text)
  | .error .missing => pure .empty
  | .error e => throw ["reading trail " ++ path, e.message]

/-- Saves a snapshot in the folder at a path and gives the path of its file. -/
def save (machine : Machine m) (directory : String) (s : Snapshot) : Fallible m String := do
  let file := Folder.fileOf s.trail.id
  let path := filePath directory file
  let folder ← readTrailFile machine path file
  match folder.save s with
  | .error e => throw [e.message directory]
  | .ok folder =>
    within ("writing " ++ path)
      (ofMachine (machine.writeText path ((folder.read? file).getD "")))
    pure path

/-- A document as output: its fields sorted by name. -/
def outputOf (fields : List (String × Json)) : String := (Json.object fields).sorted.pretty ++ "\n"

/-! ## Commands -/

/-- Runs one trail. The output comes with the error that the run ends in. -/
def runTrail (machine : Machine m) (env : String → Option String) (o : RunOptions) :
    Fallible m (String × List String) := do
  let settings ← loadSettings machine env o.settings
  let firstId ← machine.firstId
  let (schema, catalog) ← loadCatalog machine firstId o.schema
  let data ← loadData machine o.data
  match o.store with
  | some directory =>
    within ("creating trail store " ++ directory) (ofMachine (machine.makeFolder directory))
  | none => pure ()
  let context := [("data", Json.text o.data), ("schema", .text o.schema)]
  let engine : Engine := ⟨catalog, settings, .standard⟩
  let start := engine.start (schema.nextId firstId) (← machine.now) ("cli:" ++ o.target) context data
  let (outcome, r) := start.execute o.target
  let fields ← runFields r o outcome
  let saved ← match o.store with
    | some directory => do pure [("snapshot", Json.text (← save machine directory r.finish))]
    | none => pure []
  let errors := match outcome.status with
    | .failed => ["trail " ++ outcome.trail.text ++ " failed to materialize " ++ o.target]
    | _ => []
  pure (outputOf (fields ++ saved), errors)

/-- Gives the fingerprint of a schema. -/
def fingerprint (machine : Machine m) (path : String) : Fallible m (String × List String) := do
  let (_, catalog) ← loadCatalog machine (← machine.firstId) path
  pure (outputOf [("name", .text catalog.name), ("snapshot", catalog.id.encode),
    ("fingerprint", .text catalog.fingerprint), ("tables", .int catalog.tables.length)], [])

/-- The outcome of a command that ran. -/
def outcomeOf : Except (List String) (String × List String) → Outcome
  | .ok (output, []) => ⟨output, "", 0⟩
  | .ok (output, errors) => ⟨output, report errors, 1⟩
  | .error errors => ⟨"", report errors, 1⟩

/-- How the command line is used. -/
def usage : String := "\n".intercalate [
  "Materialize derived tables and report their lineage",
  "",
  "Usage: lineage run --schema <SCHEMA> --data <DATA> --target <TARGET> [--config <CONFIG>]",
  "           [--explain-row <EXPLAIN_ROW>] [--graph] [--store <STORE>]",
  "       lineage fingerprint --schema <SCHEMA>",
  "       lineage help [COMMAND]",
  "",
  "Options:",
  "  -h, --help     Print help",
  "  -V, --version  Print version",
  ""]

/-- The name and version of the program. -/
def version : String := "lineage 0.1.0\n"

/-- Does what the arguments ask for. -/
def execute (machine : Machine m) (arguments : List String) : m Outcome := do
  let given ← Variables.load machine
  let names := Request.keys ++ Settings.keys
  let values ← names.mapM (Variables.lookup machine given)
  let env (name : String) : Option String := ((names.zip values).lookup name).join
  match Request.ofArguments? env arguments with
  | some .help => pure ⟨usage, "", 0⟩
  | some .version => pure ⟨version, "", 0⟩
  | some (.run o) => do pure (outcomeOf (← (runTrail machine env o).run))
  | some (.fingerprint path) => do pure (outcomeOf (← (fingerprint machine path).run))
  | none => pure ⟨"", usage, 2⟩

end Provenance.Command
