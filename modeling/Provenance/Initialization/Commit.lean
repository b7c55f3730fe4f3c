import Provenance.Initialization.Populate

/-!
# Committing a table

A draft enters the trail as a whole, once all of its edges link what they may link and both ends of each are
there: in the catalog, in the store or in the draft itself.
-/

namespace Provenance

/-- The log with an edge. One that is there already is passed over. -/
def EdgeLog.absorb (log : EdgeLog) (edge : Edge) : Except Error EdgeLog :=
  match log.add edge with
  | .ok log => .ok log
  | .error (.duplicateEdge _) => .ok log
  | .error e => .error e

/-- The log with edges, up to the first that is refused. -/
def EdgeLog.absorbAll (log : EdgeLog) : List Edge → Except Error Unit × EdgeLog
  | [] => (.ok (), log)
  | edge :: rest =>
    match log.absorb edge with
    | .ok log => log.absorbAll rest
    | .error e => (.error e, log)

namespace Draft

/-- Whether an end of an edge of the draft is there. -/
def isKnown (setup : Setup) (s : State) (d : Draft) (e : Entity) : Bool :=
  if e.kind.isDefinitional then setup.catalog.contains e else d.contains e || s.store.contains e

/-- Accepts an end of an edge that is there. -/
def checkEnd (setup : Setup) (s : State) (d : Draft) (e : Entity) : Except Error Unit :=
  if d.isKnown setup s e then .ok () else .error (.dangling e)

/-- Accepts an edge that may enter the trail with the draft. -/
def checkEdge (setup : Setup) (s : State) (d : Draft) (edge : Edge) : Except Error Unit := do
  edge.check
  d.checkEnd setup s edge.owner
  d.checkEnd setup s edge.target

/-- Moves the draft's table and then its edges into the trail, if all of its edges may enter it. -/
def commit (setup : Setup) (s : State) (d : Draft) : Outcome :=
  match d.edges.forM (d.checkEdge setup s) with
  | .error e => (.error e, s)
  | .ok () =>
    let (result, log) := s.log.absorbAll d.edges
    (result, { s with store := s.store.commit d.extent, log, nextId := d.idsEnd s.nextId })

end Draft

end Provenance
