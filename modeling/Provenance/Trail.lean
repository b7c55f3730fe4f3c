import Provenance.Id
import Provenance.Json.Basic
import Provenance.Timestamp

/-!
# Trails

A trail is one run over a catalog: when it began, what it was run for and how it ended. Once it has ended it
stays as it is.
-/

namespace Provenance

namespace Trail

/-- How far a trail has come. -/
inductive Status where
  | running
  | completed
  /-- The table that the trail was run for could not be materialized. -/
  | failed
  deriving DecidableEq, Repr

namespace Status

/-- The name of a status. -/
def name : Status → String
  | .running => "running"
  | .completed => "completed"
  | .failed => "failed"

/-- The status with a name. -/
def ofName? (name : String) : Option Status :=
  [Status.running, .completed, .failed].find? fun status => status.name == name

/-- Whether a trail with this status has ended. -/
def isTerminal : Status → Bool
  | .running => false
  | _ => true

theorem ofName?_name (status : Status) : ofName? status.name = some status := by
  cases status <;> decide

end Status

end Trail

/-- One run over a catalog. -/
structure Trail where
  id : Id
  name : String
  createdAt : Timestamp
  /-- What the trail was run for, in the caller's words. -/
  context : List (String × Json)
  catalog : Id
  fingerprint : String
  status : Trail.Status
  finishedAt : Option Timestamp

namespace Trail

/-- A trail that begins. -/
def start (id : Id) (name : String) (now : Timestamp) (context : List (String × Json)) (catalog : Id)
    (fingerprint : String) : Trail :=
  ⟨id, name, now, context, catalog, fingerprint, .running, none⟩

/-- The trail with a status. A trail that has ended stays as it is. -/
def finish (t : Trail) (status : Status) (now : Timestamp) : Trail :=
  if t.status.isTerminal then t else { t with status, finishedAt := some now }

end Trail

end Provenance
