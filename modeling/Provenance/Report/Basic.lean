import Provenance.Initialization.State

/-!
# Reports on lineage

What is told about a run: the sources of an entity, the whole graph, and how much there is of everything.
-/

namespace Provenance

/-- What an entity was made from. -/
structure LineageReport where
  entity : Entity
  direct : List Edge
  /-- Everything that can be reached, nearest first. -/
  transitive : List Reached
  /-- What was reached and was itself made from nothing. -/
  leaves : List Entity
  maxDepth : Option Nat

/-- An entity of a graph and what it is called. -/
structure GraphNode where
  entity : Entity
  label : String

/-- The edges of a trail and the entities that they link. -/
structure LineageGraph where
  nodes : List GraphNode
  edges : List Edge

/-- How much a run has brought about. -/
structure Summary where
  trail : Id
  status : Trail.Status
  populated : Nat
  rows : Nat
  values : Nat
  /-- The number of edges of each kind that there is. -/
  edges : List (Edge.Kind × Nat)
  skipped : Nat
  failures : List Failure

/-- The number of all edges. -/
def Summary.edgeTotal (s : Summary) : Nat := s.edges.foldl (fun n entry => n + entry.2) 0

/-- How the run for a table ended. -/
structure RunOutcome where
  trail : Id
  target : String
  status : Trail.Status
  failures : List Failure

end Provenance
