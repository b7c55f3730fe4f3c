import Provenance.Report.Basic
import Provenance.Snapshot.Encoding

/-!
# Reports as documents
-/

namespace Provenance

/-- What a walk reached as a document. -/
def Reached.encode (r : Reached) : Json :=
  .object [("entity", r.entity.encode), ("depth", .int r.depth), ("via", .text r.via.name)]

/-- A bound that may be missing. -/
def encodeDepth? : Option Nat → Json
  | some n => .int n
  | none => .null

/-- A report on the sources of an entity as a document. -/
def LineageReport.encode (r : LineageReport) : Json :=
  .object [("entity", r.entity.encode), ("direct", .array (r.direct.map Edge.encode)),
    ("transitive", .array (r.transitive.map Reached.encode)),
    ("leaves", .array (r.leaves.map Entity.encode)), ("max_depth", encodeDepth? r.maxDepth)]

/-- A node of a graph as a document. -/
def GraphNode.encode (n : GraphNode) : Json :=
  .object [("entity", n.entity.encode), ("label", .text n.label)]

/-- A graph as a document. -/
def LineageGraph.encode (g : LineageGraph) : Json :=
  .object [("nodes", .array (g.nodes.map GraphNode.encode)), ("edges", .array (g.edges.map Edge.encode))]

/-- Numbers of edges as a document. -/
def encodeCounts (counts : List (Edge.Kind × Nat)) : Json :=
  .object (counts.map fun entry => (entry.1.name, .int entry.2))

/-- A summary as a document. -/
def Summary.encode (s : Summary) : Json :=
  .object [("trail_id", s.trail.encode), ("status", .text s.status.name),
    ("populated_tables", .int s.populated), ("rows", .int s.rows), ("values", .int s.values),
    ("edges", encodeCounts s.edges), ("skipped_inits", .int s.skipped),
    ("failures", .array (s.failures.map Failure.encode))]

/-- The end of a run as a document. -/
def RunOutcome.encode (o : RunOutcome) : Json :=
  .object [("trail_id", o.trail.encode), ("target", .text o.target), ("status", .text o.status.name),
    ("failures", .array (o.failures.map Failure.encode))]

end Provenance
