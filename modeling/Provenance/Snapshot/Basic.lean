import Provenance.Initialization.State

/-!
# Snapshots of a trail

Everything that a trail brought about, in the order in which it was committed. It outlives the run, and its
edges answer the same questions.
-/

namespace Provenance

/-- Everything that a trail brought about. -/
structure Snapshot where
  trail : Trail
  populated : List Populated
  rows : List Row
  values : List Value
  edges : List Edge
  failures : List Failure

/-- The edges of a snapshot as a log. -/
def Snapshot.log (s : Snapshot) : Except Error EdgeLog := EdgeLog.ofEdges s.edges

end Provenance
