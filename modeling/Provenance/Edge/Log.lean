import Provenance.Error
import Provenance.Graph.Search

/-!
# The edges of a trail

Edges are only ever added to a log, each once and only between kinds of entities that its own kind links.
What an entity was made from is read off the log: directly, or through a walk to its last sources. An
entity is followed by its identifier alone.
-/

namespace Provenance

/-- Whether an edge links kinds of entities that its own kind links. -/
def Edge.check (edge : Edge) : Except Error Unit :=
  if !edge.kind.acceptsOwner edge.owner.kind then .error (.invalidOwner edge.kind edge.owner)
  else if !edge.kind.acceptsTarget edge.target.kind then
    .error (.invalidTarget edge.kind edge.owner edge.target)
  else .ok ()

/-- The edges of one trail in the order they were added. -/
structure EdgeLog where
  edges : List Edge

/-- An entity that a walk reached: how many edges away from the start, and by which kind of edge. -/
structure Reached where
  entity : Entity
  depth : Nat
  via : Edge.Kind
  deriving DecidableEq

namespace EdgeLog

/-- The log without edges. -/
def empty : EdgeLog := ⟨[]⟩

/-- The log with one more edge. -/
def add (log : EdgeLog) (edge : Edge) : Except Error EdgeLog := do
  edge.check
  if edge ∈ log.edges then .error (.duplicateEdge edge)
  else .ok ⟨log.edges ++ [edge]⟩

/-- The log of the given edges, if each may be added after those before it. -/
def ofEdges (edges : List Edge) : Except Error EdgeLog := edges.foldlM add empty

/-- The edges that an entity owns. -/
def ownedBy (log : EdgeLog) (id : Id) : List Edge :=
  log.edges.filter fun edge => edge.owner.id = id

/-- The edges of one kind that an entity owns. -/
def ownedByOfKind (log : EdgeLog) (id : Id) (kind : Edge.Kind) : List Edge :=
  (log.ownedBy id).filter fun edge => edge.kind = kind

/-- How many edges of a kind there are. -/
def count (log : EdgeLog) (kind : Edge.Kind) : Nat :=
  (log.edges.filter fun edge => edge.kind = kind).length

/-- The kinds of which there are edges, with their numbers. -/
def countByKind (log : EdgeLog) : List (Edge.Kind × Nat) :=
  (Edge.Kind.all.map fun kind => (kind, log.count kind)).filter fun entry => entry.2 ≠ 0

/-- What an entity was directly made from, the last added first. -/
def sourcesOf (log : EdgeLog) (id : Id) : List Entity :=
  ((log.ownedBy id).map Edge.target).reverse

/-- A closed path of edges that can be reached from an entity, if there is one. -/
def cycleFrom? (log : EdgeLog) (start : Entity) : Option (List Entity) :=
  match Graph.search Entity.id log.sourcesOf (log.edges.length + 1) [start] (log.sourcesOf start.id)
      [] with
  | .error path => some path
  | .ok _ => none

/-- Everything that can be reached from an entity by at most `depth` edges, or by any number of them,
nearest first. -/
def walkFrom (log : EdgeLog) (start : Entity) (depth : Option Nat) : List Reached :=
  let levels := (depth.map (min · (log.edges.length + 1))).getD (log.edges.length + 1)
  (Graph.walk (fun edge => edge.target.id) log.ownedBy levels 1 (log.ownedBy start.id)
    [start.id]).map fun step => ⟨step.1.target, step.2, step.1.kind⟩

/-- Everything that an entity was made from, unless a cycle can be reached from it. -/
def transitive (log : EdgeLog) (start : Entity) (depth : Option Nat) : Except Error (List Reached) :=
  match log.cycleFrom? start with
  | some path => .error (.cyclic path)
  | none => .ok (log.walkFrom start depth)

end EdgeLog

end Provenance
