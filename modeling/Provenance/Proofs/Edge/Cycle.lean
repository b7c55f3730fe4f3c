import Provenance.Edge.Log
import Provenance.Proofs.Graph.Cycle

/-!
# Cycles of a log

An edge leads from the identity of its owner to that of its target. The depth of the search for cycles is one
more than there are edges, which suffices for every path (`EdgeLog.searches_cycleFrom?`), so what was made
from an entity is refused exactly where a cycle can be reached, whatever the edges of a log are. Main
statement: `EdgeLog.transitive_cyclic_iff`.
-/

namespace Provenance

/-- An edge of a log leads from one identity to another. -/
def EdgeLog.Links (log : EdgeLog) (a b : Id) : Prop :=
  ∃ edge ∈ log.edges, edge.owner.id = a ∧ edge.target.id = b

/-- A cycle of a log that can be reached from an entity, given by what is on it: an edge leads from each
entity to the next one, and of their identities the first comes again at the end and no other one does. -/
structure EdgeLog.CycleFrom (log : EdgeLog) (start : Entity) (path : List Entity) : Prop where
  two_le : 2 ≤ path.length
  closes : path.head?.map Entity.id = path.getLast?.map Entity.id
  linked : path.IsChain fun e x => ∃ edge ∈ log.edges, edge.owner.id = e.id ∧ edge.target = x
  nodup : (path.dropLast.map Entity.id).Nodup
  reached : ∀ e ∈ path, Relation.ReflTransGen log.Links start.id e.id

namespace EdgeLog

variable {log : EdgeLog} {start x : Entity} {depth : Option Nat} {path : List Entity} {id : Id}

theorem mem_ownedBy {edge : Edge} : edge ∈ log.ownedBy id ↔ edge ∈ log.edges ∧ edge.owner.id = id := by
  simp [ownedBy]

theorem mem_sourcesOf : x ∈ log.sourcesOf id ↔ ∃ edge ∈ log.edges, edge.owner.id = id ∧ edge.target = x := by
  simp [sourcesOf, mem_ownedBy, and_assoc]

theorem leads_sourcesOf : Graph.Leads Entity.id log.sourcesOf = log.Links := by
  funext a b
  refine propext ⟨?_, ?_⟩
  · rintro ⟨x, hx, rfl⟩
    obtain ⟨edge, hedge, howner, rfl⟩ := mem_sourcesOf.1 hx
    exact ⟨edge, hedge, howner, rfl⟩
  · rintro ⟨edge, hedge, howner, rfl⟩
    exact ⟨edge.target, mem_sourcesOf.2 ⟨edge, hedge, howner, rfl⟩, rfl⟩

theorem mem_targets_of_links (log : EdgeLog) (a b : Id) (h : log.Links a b) :
    b ∈ log.edges.map fun edge => edge.target.id := by
  obtain ⟨edge, hedge, -, rfl⟩ := h
  exact List.mem_map_of_mem hedge

/-- The search for a cycle is not cut short. -/
theorem searches_cycleFrom? (log : EdgeLog) (start : Entity) :
    Graph.Searches Entity.id log.sourcesOf [start] (log.sourcesOf start.id) []
      (Graph.search Entity.id log.sourcesOf (log.edges.length + 1) [start] (log.sourcesOf start.id) []) := by
  have htargets := log.mem_targets_of_links
  rw [← leads_sourcesOf] at htargets
  refine Graph.searches_search htargets (.first Entity.id log.sourcesOf start) ?_
  simp only [List.length_map, List.length_singleton]
  omega

theorem cycleFrom?_eq_some_iff : log.cycleFrom? start = some path ↔
    Graph.search Entity.id log.sourcesOf (log.edges.length + 1) [start] (log.sourcesOf start.id) [] =
      .error path := by
  rw [cycleFrom?]
  split
  · next hsearch => simp [hsearch]
  · next hsearch => simp [hsearch]

theorem exists_cycleFrom?_iff : (∃ path, log.cycleFrom? start = some path) ↔
    ∃ id, Relation.ReflTransGen log.Links start.id id ∧ Relation.TransGen log.Links id id := by
  simp only [cycleFrom?_eq_some_iff]
  rw [(log.searches_cycleFrom? start).eq_error_iff, leads_sourcesOf]

theorem cycleFrom?_eq_none_iff : log.cycleFrom? start = none ↔
    ∀ id, Relation.ReflTransGen log.Links start.id id → ¬Relation.TransGen log.Links id id := by
  rw [← Option.not_isSome_iff_eq_none, Option.isSome_iff_exists, exists_cycleFrom?_iff]
  simp

theorem cycleFrom_of_cycleFrom? (h : log.cycleFrom? start = some path) : log.CycleFrom start path := by
  have hsearch := log.searches_cycleFrom? start
  rw [cycleFrom?_eq_some_iff.1 h] at hsearch
  obtain ⟨hclosed, hreached⟩ := hsearch.closedPath (.first Entity.id log.sourcesOf start)
  rw [leads_sourcesOf] at hreached
  refine ⟨hclosed.two_le, hclosed.closes, ?_, hclosed.nodup, hreached⟩
  exact hclosed.chain.imp fun e x hx => mem_sourcesOf.1 hx

theorem transitive_of_cycleFrom? (h : log.cycleFrom? start = some path) :
    log.transitive start depth = .error (.cyclic path) := by
  rw [transitive, h]

/-- What an entity was made from is told where no cycle can be reached from it. -/
theorem transitive_of_acyclic
    (h : ∀ id, Relation.ReflTransGen log.Links start.id id → ¬Relation.TransGen log.Links id id) :
    log.transitive start depth = .ok (log.walkFrom start depth) := by
  rw [transitive, cycleFrom?_eq_none_iff.2 h]

theorem transitive_eq_error_iff {error : Error} : log.transitive start depth = .error error ↔
    ∃ path, error = .cyclic path ∧ log.cycleFrom? start = some path := by
  rw [transitive]
  cases hcycle : log.cycleFrom? start with
  | none => simp
  | some path => simp [eq_comm]

/-- What an entity was made from is refused, if and only if a cycle can be reached from it; that is the only
reason, and the depth does not matter. The search comes to an end on its own, not at its bound, and what it
reports is such a cycle. -/
theorem transitive_cyclic_iff (log : EdgeLog) (start : Entity) :
    (∀ depth, (∃ path, log.transitive start depth = .error (.cyclic path)) ↔
      ∃ id, Relation.ReflTransGen log.Links start.id id ∧ Relation.TransGen log.Links id id) ∧
    (∀ depth error, log.transitive start depth = .error error →
      ∃ path, error = .cyclic path ∧ log.CycleFrom start path ∧
        ∀ depth, log.transitive start depth = .error (.cyclic path)) ∧
    ∃ result, Graph.Searches Entity.id log.sourcesOf [start] (log.sourcesOf start.id) [] result ∧
      ∀ depth path, log.transitive start depth = .error (.cyclic path) ↔ result = .error path := by
  have hcyclic : ∀ depth path, log.transitive start depth = .error (.cyclic path) ↔
      log.cycleFrom? start = some path := by
    intro depth path
    rw [transitive_eq_error_iff]
    simp
  refine ⟨fun depth => ?_, fun depth error h => ?_, _, log.searches_cycleFrom? start, fun depth path => ?_⟩
  · simp only [hcyclic]
    exact exists_cycleFrom?_iff
  · obtain ⟨path, rfl, hcycle⟩ := transitive_eq_error_iff.1 h
    exact ⟨path, rfl, cycleFrom_of_cycleFrom? hcycle, fun _ => transitive_of_cycleFrom? hcycle⟩
  · rw [hcyclic, cycleFrom?_eq_some_iff]

-- The cycle lies behind an entity that is reached on two ways.
example :
    let e (n : Nat) : Entity := ⟨.evaluatedValue, ⟨n⟩⟩
    let edge (a b : Nat) : Edge := ⟨e a, .valueSource, e b⟩
    (EdgeLog.mk [edge 1 2, edge 1 3, edge 2 3, edge 3 4, edge 4 3]).transitive (e 1) (some 1) =
      .error (.cyclic [e 3, e 4, e 3]) := rfl

end EdgeLog

end Provenance
