import Provenance.Proofs.Initialization.Invariant
import Provenance.View

/-!
# What is known in a run

A run knows the definitions of its catalog and all that is materialized in its store. No two of these things
share an identity, and the edges of the run link things that it knows (`State.MadeOf.identified`).
-/

namespace Provenance

/-- Everything that is materialized in a store. -/
def Store.entities (s : Store) : List Entity := s.extents.flatMap fun x => x.populated.entity :: x.entities

/-- The definitions of a catalog and everything that is materialized in a store. -/
def knownEntities (c : Catalog) (s : Store) : List Entity := c.entities ++ s.entities

/-- All that a log links is known, and nothing that is known shares an identity. -/
structure EdgeLog.Identified (log : EdgeLog) (known : List Entity) : Prop where
  ids : IdsIdentify known
  owners : ∀ edge ∈ log.edges, edge.owner ∈ known
  targets : ∀ edge ∈ log.edges, edge.target ∈ known

section

variable {c : Catalog} {s : Store} {x : Extent} {e : Entity}

theorem Store.map_id_entities (s : Store) : s.entities.map Entity.id = s.extents.flatMap Extent.ids := by
  unfold entities Extent.entities Extent.ids
  simp only [List.map_flatMap, List.map_cons, List.map_append, List.map_map]
  rfl

theorem mem_knownEntities_of_extent (hx : x ∈ s.extents) (he : e ∈ x.populated.entity :: x.entities) :
    e ∈ knownEntities c s :=
  List.mem_append_right _ (List.mem_flatMap.2 ⟨x, hx, he⟩)

theorem row_mem_knownEntities {r : Row} (hr : r ∈ s.rows) : r.entity ∈ knownEntities c s := by
  obtain ⟨x, hx, hr⟩ := List.mem_flatMap.1 hr
  exact mem_knownEntities_of_extent hx
    (List.mem_cons_of_mem _ (List.mem_append_left _ (List.mem_map_of_mem hr)))

theorem value_mem_knownEntities {v : Value} (hv : v ∈ s.values) : v.entity ∈ knownEntities c s := by
  obtain ⟨x, hx, hv⟩ := List.mem_flatMap.1 hv
  exact mem_knownEntities_of_extent hx
    (List.mem_cons_of_mem _ (List.mem_append_right _ (List.mem_map_of_mem hv)))

theorem Store.Grounds.known (h : s.Grounds c e) : e ∈ knownEntities c s := by
  rcases h with he | ⟨r, hr, rfl⟩ | ⟨v, hv, rfl⟩
  · exact List.mem_append_left _ he
  · exact row_mem_knownEntities hr
  · exact value_mem_knownEntities hv

/-- What is looked up with success is known. -/
theorem known_of_lookupEntity {subject : Subject} (h : lookupEntity c s e = some subject) :
    e ∈ knownEntities c s := by
  obtain ⟨hfind, hentity⟩ := Option.filter_eq_some_iff.1 h
  rw [← of_decide_eq_true hentity]
  unfold findSubject? at hfind
  split at hfind
  all_goals
    obtain ⟨thing, hthing, rfl⟩ := Option.map_eq_some_iff.1 hfind
  case h_1 | h_2 =>
    exact List.mem_append_left _ (Catalog.table_entity_mem (Catalog.mem_of_tableById? hthing).1)
  case h_3 =>
    obtain ⟨t, ht, hc⟩ := Option.bind_eq_some_iff.1 hthing
    exact List.mem_append_left _ (Catalog.creation_entity_mem (List.mem_of_find?_eq_some ht) hc)
  case h_4 | h_5 =>
    exact List.mem_append_left _ (Catalog.column_entity_mem (List.mem_of_find?_eq_some hthing))
  case h_6 | h_7 =>
    obtain ⟨x, hx, rfl⟩ := List.mem_map.1 (Store.of_last?_eq_some hthing).1
    exact mem_knownEntities_of_extent hx List.mem_cons_self
  case h_8 | h_9 => exact row_mem_knownEntities (Store.of_last?_eq_some hthing).1
  case h_10 | h_11 => exact value_mem_knownEntities (Store.of_last?_eq_some hthing).1

end

namespace State.MadeOf

variable {setup : Setup} {s : State} {cs : List Commit}

/-- What a commit owns is known. -/
theorem known_of_owns (h : s.MadeOf setup cs) {c : Commit} {e : Entity} (hc : c ∈ cs)
    (howns : c.draft.Owns setup.catalog c.table e) : e ∈ knownEntities setup.catalog s.store := by
  rcases howns with he | he
  · exact List.mem_append_left _ (he.mem_entities (h.history.known hc))
  · exact mem_knownEntities_of_extent (h.mem_extents hc) (List.mem_cons_of_mem _ he)

/-- No two things that a run knows share an identity, and its edges link things that it knows. -/
theorem identified (hwf : setup.catalog.WellFormed) (h : s.MadeOf setup cs) :
    s.log.Identified (knownEntities setup.catalog s.store) := by
  have hsound := h.history.sound hwf
  refine ⟨idsIdentify_of_nodup ?_, fun edge hedge => ?_, fun edge hedge => ?_⟩
  · unfold knownEntities
    rw [List.map_append, Store.map_id_entities, h.store]
    refine List.nodup_append.2 ⟨hwf.ids, hsound.nodup_ids, fun id hid id' hid' heq => ?_⟩
    obtain ⟨e, he, rfl⟩ := List.mem_map.1 hid
    obtain ⟨x, hx, hid'⟩ := List.mem_flatMap.1 hid'
    obtain ⟨c, hc, rfl⟩ := List.mem_map.1 hx
    have hlt := h.history.id_lt_of_mem_ids hsound hc he hid'
    exact absurd (heq ▸ hlt) (Nat.lt_irrefl _)
  · obtain ⟨c, hc, hedge⟩ := h.mem_edges_iff.1 hedge
    obtain ⟨_, hg⟩ := h.history.grounded hwf hc
    exact h.known_of_owns hc (hg.owners edge hedge)
  · obtain ⟨c, hc, hmem⟩ := h.mem_edges_iff.1 hedge
    obtain ⟨before, after, rfl, follows⟩ := h.history.exists_follows hc
    have hknown := ((follows.grounded hwf).targets edge hmem).known
    rcases List.mem_append.1 hknown with he | he
    · exact List.mem_append_left _ he
    · obtain ⟨x, hx, he⟩ := List.mem_flatMap.1 he
      obtain ⟨c', hc', rfl⟩ := List.mem_map.1 hx
      exact mem_knownEntities_of_extent (h.mem_extents (List.mem_append_left _ hc')) he

end State.MadeOf

end Provenance
