import Provenance.Proofs.Lineage.Known
import Provenance.Proofs.Reachable

/-!
# Entities resolve

In a reachable run an entity is found where its kind says that it is: a definition in the catalog
(`isSome_lookupEntity_of_definition`) and anything else in the store (`isSome_lookupEntity_of_materialized`).
As the edges of a run link what is known in it, none of them leads to or from something that is not there.
Main statement: `Run.Reachable.edges_resolve`.
-/

namespace Provenance

section

variable {c : Catalog} {s : Store} {e : Entity}

theorem Catalog.contains_iff : c.contains e ↔ e ∈ c.entities := decide_eq_true_iff

/-! ## What is materialized -/

theorem Store.mem_entities_iff : e ∈ s.entities ↔
    (∃ x ∈ s.extents, x.populated.entity = e) ∨ (∃ r ∈ s.rows, r.entity = e) ∨
      ∃ v ∈ s.values, v.entity = e := by
  simp only [entities, Extent.entities, rows, values, List.mem_flatMap, List.mem_cons, List.mem_append,
    List.mem_map]
  constructor
  · rintro ⟨x, hx, rfl | ⟨r, hr, rfl⟩ | ⟨v, hv, rfl⟩⟩
    · exact .inl ⟨x, hx, rfl⟩
    · exact .inr (.inl ⟨r, ⟨x, hx, hr⟩, rfl⟩)
    · exact .inr (.inr ⟨v, ⟨x, hx, hv⟩, rfl⟩)
  · rintro (⟨x, hx, rfl⟩ | ⟨r, ⟨x, hx, hr⟩, rfl⟩ | ⟨v, ⟨x, hx, hv⟩, rfl⟩)
    · exact ⟨x, hx, .inl rfl⟩
    · exact ⟨x, hx, .inr (.inl ⟨r, hr, rfl⟩)⟩
    · exact ⟨x, hx, .inr (.inr ⟨v, hv, rfl⟩)⟩

theorem Store.isDefinitional_of_mem (he : e ∈ s.entities) : e.kind.isDefinitional = false := by
  rcases mem_entities_iff.1 he with ⟨x, -, rfl⟩ | ⟨r, -, rfl⟩ | ⟨v, -, rfl⟩
  · rw [Populated.entity]
    cases x.populated.origin <;> rfl
  · rw [Row.entity]
    cases r.origin <;> rfl
  · rw [Value.entity]
    cases v.origin <;> rfl

theorem Store.Sound.contains_of_mem (hs : s.Sound) (he : e ∈ s.entities) : s.contains e := by
  rcases mem_entities_iff.1 he with ⟨x, hx, rfl⟩ | ⟨r, hr, rfl⟩ | ⟨v, hv, rfl⟩
  · exact hs.contains_populated hx
  · exact hs.contains_row hr
  · exact hs.contains_value hv

theorem Store.isDefinitional_of_contains (h : s.contains e) : e.kind.isDefinitional = false := by
  obtain ⟨kind, id⟩ := e
  cases kind
  case databaseTable | derivedTable | tableCreation | databaseField | function =>
    simp [contains, find?] at h
  all_goals rfl

/-! ## Lookups -/

theorem isSome_lookupEntity_iff :
    (lookupEntity c s e).isSome ↔ (findSubject? c s e).map Subject.entity = some e := by
  cases hfind : findSubject? c s e <;> simp [lookupEntity, hfind, Option.filter_some]

/-- What is not a definition is found as it is materialized. -/
theorem isSome_lookupEntity_of_materialized (hkind : e.kind.isDefinitional = false) :
    (lookupEntity c s e).isSome ↔ s.contains e := by
  have hfind : (findSubject? c s e).map Subject.entity = s.find? e := by
    obtain ⟨kind, id⟩ := e
    cases kind
    case databaseTable | derivedTable | tableCreation | databaseField | function => cases hkind
    all_goals
      simp only [findSubject?, Store.find?, Option.map_map]
      rfl
  rw [isSome_lookupEntity_iff, hfind]
  simp [Store.contains]

/-- A definition is found as it is in the catalog. -/
theorem isSome_lookupEntity_of_definition (hwf : c.WellFormed) (hkind : e.kind.isDefinitional = true) :
    (lookupEntity c s e).isSome ↔ c.contains e := by
  rw [Catalog.contains_iff]
  constructor
  · intro h
    obtain ⟨subject, hsubject⟩ := Option.isSome_iff_exists.1 h
    refine (List.mem_append.1 (known_of_lookupEntity hsubject)).resolve_right fun he => ?_
    cases hkind.symm.trans (Store.isDefinitional_of_mem he)
  · intro he
    rw [isSome_lookupEntity_iff]
    rcases Catalog.mem_entities_iff.1 he with ⟨t, ht, rfl⟩ | ⟨t, ht, creation, hc, rfl⟩ | ⟨col, hcol, rfl⟩
    · have hfind : c.tableById? t.entity.id = some t := hwf.tableById?_of_mem ht
      rcases t.entity_kind with hk | hk <;> simp [findSubject?, hk, hfind, Subject.entity]
    · have hfind : c.creationById? creation.entity.id = some creation := hwf.creationById?_of_mem ht hc
      have hk : creation.entity.kind = .tableCreation := rfl
      simp [findSubject?, hk, hfind, Subject.entity]
    · have hfind : c.columnById? col.entity.id = some col := by
        rw [col.entity_id]
        exact hwf.columnById?_of_mem hcol
      rcases col.entity_kind with hk | hk <;> simp [findSubject?, hk, hfind, Subject.entity]

end

namespace Run

/-- An entity resolves in a run: it is looked up as a thing with its kind and its identity, and this is a
definition of the run's own catalog or something in its own store, as the kind tells. -/
structure Resolves (r : Run) (e : Entity) : Prop where
  found : ∃ subject, r.lookup e = some subject ∧ subject.entity = e
  defined : e.kind.isDefinitional = true → r.setup.catalog.contains e
  materialized : e.kind.isDefinitional = false → r.state.store.contains e

variable {r : Run} {e : Entity}

theorem isSome_lookup_iff (hwf : r.setup.catalog.WellFormed) :
    (r.lookup e).isSome ↔ r.setup.catalog.contains e ∨ r.state.store.contains e := by
  rw [lookup]
  cases hkind : e.kind.isDefinitional with
  | true =>
    rw [isSome_lookupEntity_of_definition hwf hkind]
    refine ⟨.inl, fun h => h.resolve_right fun hmaterialized => ?_⟩
    cases hkind.symm.trans (Store.isDefinitional_of_contains hmaterialized)
  | false =>
    rw [isSome_lookupEntity_of_materialized hkind]
    refine ⟨.inr, fun h => h.resolve_left fun hdefined => ?_⟩
    cases hkind.symm.trans (Catalog.isDefinitional_of_mem (Catalog.contains_iff.1 hdefined))

theorem resolves_of_isSome (hwf : r.setup.catalog.WellFormed) (h : (r.lookup e).isSome) : r.Resolves e where
  found := by
    obtain ⟨subject, hsubject⟩ := Option.isSome_iff_exists.1 h
    exact ⟨subject, hsubject, of_decide_eq_true (Option.filter_eq_some_iff.1 hsubject).2⟩
  defined hkind := (isSome_lookupEntity_of_definition hwf hkind).1 h
  materialized hkind := (isSome_lookupEntity_of_materialized hkind).1 h

/-- Every edge of a reachable run links kinds that its own kind links, and both of its ends resolve. Whatever
the entity, it is found exactly if the catalog has it or it is materialized. -/
theorem Reachable.edges_resolve (h : r.Reachable) :
    (∀ edge ∈ r.state.log.edges, edge.kind.acceptsOwner edge.owner.kind ∧
      edge.kind.acceptsTarget edge.target.kind ∧ r.Resolves edge.owner ∧ r.Resolves edge.target) ∧
    ∀ e, (r.lookup e).isSome ↔ r.setup.catalog.contains e ∨ r.state.store.contains e := by
  obtain ⟨hwf, cs, hmade⟩ := h.exists_madeOf
  have hs := hmade.sound hwf
  have hresolves : ∀ e ∈ knownEntities r.setup.catalog r.state.store, r.Resolves e := by
    intro e he
    apply resolves_of_isSome hwf
    rw [isSome_lookup_iff hwf]
    exact (List.mem_append.1 he).imp Catalog.contains_iff.2 hs.contains_of_mem
  have hknown := hmade.identified hwf
  refine ⟨fun edge hedge => ?_, fun e => isSome_lookup_iff hwf⟩
  obtain ⟨c, hc, hmem⟩ := hmade.mem_edges_iff.1 hedge
  obtain ⟨before, hgrounded⟩ := hmade.history.grounded hwf hc
  obtain ⟨howner, htarget⟩ := Edge.check_eq_ok_iff.1 (hgrounded.checked edge hmem)
  exact ⟨howner, htarget, hresolves _ (hknown.owners edge hedge), hresolves _ (hknown.targets edge hedge)⟩

end Run

namespace Sample

/-- The total of a region and the sale that it was made from resolve, but not the sale as a derived value. -/
theorem resolves_total :
    let r := run.after (.materialize "total")
    r.Resolves ⟨.evaluatedValue, ⟨21⟩⟩ ∧ r.Resolves ⟨.databaseValue, ⟨14⟩⟩ ∧
      r.lookup ⟨.evaluatedValue, ⟨14⟩⟩ = none := by
  intro r
  obtain ⟨hedges, hfound⟩ := Run.Reachable.edges_resolve (.call reachable_run (.materialize "total"))
  have hedge : ⟨⟨.evaluatedValue, ⟨21⟩⟩, .valueSource, ⟨.databaseValue, ⟨14⟩⟩⟩ ∈ r.state.log.edges := by
    decide +kernel
  obtain ⟨-, -, howner, htarget⟩ := hedges _ hedge
  refine ⟨howner, htarget, Option.not_isSome_iff_eq_none.1 fun hsome => ?_⟩
  rcases (hfound _).1 hsome with h | h
  · cases h
  · cases h

end Sample

end Provenance
