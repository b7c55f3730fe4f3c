import Provenance.Document
import Provenance.Edge.Basic

/-!
# Entities and edges as documents

Identifiers are texts, and an entity is a record of its kind and its identifier.
-/

namespace Provenance

open Document

/-- An identifier as a document. -/
def Id.encode (id : Id) : Json := .text id.text

/-- An identifier read from a text. -/
def Id.ofDocument? [Document α] (v : α) : Option Id := do Id.read? (← text? v)

/-- An entity as a document. -/
def Entity.encode (e : Entity) : Json := .object [("kind", .text e.kind.name), ("id", e.id.encode)]

/-- An entity read from a record. -/
def Entity.read? [Document α] (depth : Nat) (v : α) : Option Entity := do
  match depth, ← record? ["kind", "id"] v with
  | depth + 1, [some kind, some id] =>
    some ⟨← Entity.Kind.ofName? (← name? depth kind), ← Id.ofDocument? id⟩
  | _, _ => none

/-- An edge as a document. -/
def Edge.encode (e : Edge) : Json :=
  .object [("owner", e.owner.encode), ("kind", .text e.kind.name), ("target", e.target.encode)]

/-- An edge read from a record. -/
def Edge.read? [Document α] (depth : Nat) (v : α) : Option Edge := do
  match depth, ← record? ["owner", "kind", "target"] v with
  | depth + 1, [some owner, some kind, some target] =>
    some ⟨← Entity.read? depth owner, ← Edge.Kind.ofName? (← name? depth kind),
      ← Entity.read? depth target⟩
  | _, _ => none

end Provenance
