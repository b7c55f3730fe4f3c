import Provenance.Error
import Provenance.Graph.Search
import Provenance.Schema.Basic

/-!
# Hierarchies

Members and their parents. No member of a hierarchy stands above itself, so that standing at or below is an
order of the members.
-/

namespace Provenance

/-- A hierarchy: each member that has parents, in the order of the names, with its parents in the order of
the definition. -/
structure Hierarchy where
  name : String
  parents : List (String × List String)

namespace Hierarchy

/-- The parents of a member. -/
def parentsOf (h : Hierarchy) (member : String) : List String := (h.parents.lookup member).getD []

/-- The parents of all members with one more link. -/
def addLink (link : HierarchyLink) : List (String × List String) → List (String × List String)
  | [] => [(link.child, [link.parent])]
  | (member, above) :: rest =>
    if link.child < member then (link.child, [link.parent]) :: (member, above) :: rest
    else if link.child = member then
      (member, if link.parent ∈ above then above else above ++ [link.parent]) :: rest
    else (member, above) :: addLink link rest

/-- The hierarchy of a definition, before it is known to be free of cycles. -/
def ofDefinition (d : HierarchyDefinition) : Hierarchy :=
  ⟨d.name, d.links.foldl (fun parents link => addLink link parents) []⟩

/-- A member that stands above itself, if there is one. The search starts from the members in the order of
their names and follows parents in their order. -/
def cyclicMember? (h : Hierarchy) : Option String :=
  match Graph.search id h.parentsOf (h.parents.length + 1) [] (h.parents.map Prod.fst) [] with
  | .error path => path.getLast?
  | .ok _ => none

/-- The hierarchy of a definition. -/
def compile (d : HierarchyDefinition) : Except Error Hierarchy :=
  let h := ofDefinition d
  match h.cyclicMember? with
  | some member => .error (.invalid (.cyclicHierarchy d.name member))
  | none => .ok h

/-- The members above a member, nearest first. -/
def above (h : Hierarchy) (member : String) : List String :=
  let count := h.parents.foldl (fun n entry => n + entry.2.length) 0
  (Graph.walk id h.parentsOf (count + 1) 1 (h.parentsOf member) []).map Prod.fst

/-- Whether a member is another one or stands below it. -/
def isMember (h : Hierarchy) (member ancestor : String) : Bool :=
  member == ancestor || (h.above member).contains ancestor

end Hierarchy

end Provenance
