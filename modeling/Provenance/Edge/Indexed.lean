import Std.Data.HashMap
import Std.Data.HashSet
import Provenance.Edge.Log

/-!
# Logs with an index

So that no lookup goes through the whole log, a log is kept together with the places of the edges of every
owner and with the set of its edges.
-/

namespace Provenance

/-- A log with the places of the edges of every owner, and with the set of its edges. -/
structure IndexedLog where
  edges : Array Edge
  places : Std.HashMap Provenance.Id (Array Nat)
  present : Std.HashSet Edge

namespace IndexedLog

/-- The log without edges. -/
def empty : IndexedLog := ⟨#[], ∅, ∅⟩

/-- The places of the edges that an entity owns. -/
def placesOf (x : IndexedLog) (id : Provenance.Id) : Array Nat := x.places.getD id #[]

/-- Adds an edge. What it gives comes with the log after it, as the set is asked and changed at once. -/
def add (x : IndexedLog) (edge : Edge) : Except Error Unit × IndexedLog :=
  match edge.check with
  | .error e => (.error e, x)
  | .ok () =>
    let (before, present) := x.present.containsThenInsert edge
    if before then (.error (.duplicateEdge edge), { x with present })
    else
      let places := x.places.insert edge.owner.id ((x.placesOf edge.owner.id).push x.edges.size)
      (.ok (), ⟨x.edges.push edge, places, present⟩)

/-- The log after edges were added one after another, those that were refused passed over. -/
def addAll (x : IndexedLog) (edges : List Edge) : IndexedLog := edges.foldl (fun x edge => (x.add edge).2) x

/-- The log with one more edge. -/
def add? (x : IndexedLog) (edge : Edge) : Except Error IndexedLog := (x.add edge).1.map fun _ => (x.add edge).2

/-- The log of the given edges, if each may be added after those before it. -/
def ofEdges (edges : List Edge) : Except Error IndexedLog := edges.foldlM add? empty

/-- The edges that an entity owns, looked up by their places. There are none if a place lies outside of the
log. -/
def resolve? (x : IndexedLog) (id : Provenance.Id) : Option (List Edge) :=
  (x.placesOf id).toList.mapM fun place => x.edges[place]?

/-- The edges alone. -/
def log (x : IndexedLog) : EdgeLog := ⟨x.edges.toList⟩

end IndexedLog

end Provenance
