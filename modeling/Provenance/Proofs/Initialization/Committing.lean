import Provenance.Proofs.Initialization.Grounded

/-!
# Committing is all or nothing

A commit that fails leaves the state as it was: every edge is checked before anything is moved, and an edge
that passed is not refused afterwards (`Draft.commit_of_error`). A draft that was staged over the store is
never refused, and its commit adds exactly its rows, values and edges (`Draft.commit_of_grounded`).
-/

namespace Provenance

namespace EdgeLog

variable {log : EdgeLog} {edge : Edge} {edges : List Edge}

theorem absorb_of_checked (h : edge.check = .ok ()) :
    log.absorb edge = .ok (if edge ∈ log.edges then log else ⟨log.edges ++ [edge]⟩) := by
  unfold absorb
  rw [add_of_checked h]
  by_cases hmem : edge ∈ log.edges
  · rw [if_pos hmem, if_pos hmem]
  · rw [if_neg hmem, if_neg hmem]

/-- Edges that were checked are not refused. -/
theorem absorbAll_of_checked (h : ∀ edge ∈ edges, edge.check = .ok ()) :
    (log.absorbAll edges).1 = .ok () := by
  induction edges generalizing log with
  | nil => rfl
  | cons edge edges ih =>
    unfold absorbAll
    rw [absorb_of_checked (h edge List.mem_cons_self)]
    exact ih fun e he => h e (List.mem_cons_of_mem _ he)

/-- Edges that were checked and are new are all added. -/
theorem absorbAll_of_fresh (h : ∀ edge ∈ edges, edge.check = .ok ()) (hnodup : edges.Nodup)
    (hfresh : ∀ edge ∈ edges, edge ∉ log.edges) :
    log.absorbAll edges = (.ok (), ⟨log.edges ++ edges⟩) := by
  induction edges generalizing log with
  | nil => simp [absorbAll]
  | cons edge edges ih =>
    obtain ⟨hnew, hnodup⟩ := List.nodup_cons.1 hnodup
    unfold absorbAll
    rw [absorb_of_checked (h edge List.mem_cons_self), if_neg (hfresh edge List.mem_cons_self)]
    dsimp only
    rw [ih (fun e he => h e (List.mem_cons_of_mem _ he)) hnodup fun e he hmem => ?_]
    · simp
    · rcases List.mem_append.1 hmem with hmem | hmem
      · exact hfresh e (List.mem_cons_of_mem _ he) hmem
      · exact hnew (List.mem_singleton.1 hmem ▸ he)

end EdgeLog

namespace Draft

variable {setup : Setup} {s : State} {d : Draft} {t : Table}

/-- The state after a draft with new edges was committed. -/
def committed (s : State) (d : Draft) : State :=
  { s with
    store := s.store.commit d.extent
    log := ⟨s.log.edges ++ d.edges⟩
    nextId := d.idsEnd s.nextId }

/-- A commit that fails changes nothing. -/
theorem commit_of_error {e : Error} (h : (d.commit setup s).1 = .error e) : (d.commit setup s).2 = s := by
  unfold commit at h ⊢
  split
  · rfl
  · next hchecked =>
    rw [hchecked] at h
    have hedges : ∀ edge ∈ d.edges, edge.check = .ok () := by
      intro edge hedge
      obtain ⟨_, hcheck, -⟩ := Except.bind_eq_ok_iff.1 (List.forM_eq_ok_iff.1 hchecked edge hedge)
      exact hcheck
    cases (EdgeLog.absorbAll_of_checked hedges).symm.trans h

theorem isKnown_of_owns (ht : t ∈ setup.catalog.tables) {e : Entity}
    (h : d.Owns setup.catalog t e) : d.isKnown setup s e := by
  rcases h with he | he
  · have he := he.mem_entities ht
    unfold isKnown Catalog.contains
    rw [if_pos (Catalog.isDefinitional_of_mem he)]
    exact decide_eq_true he
  · have hkind : e.kind.isDefinitional = false := by
      rcases List.mem_append.1 he with he | he
      · obtain ⟨r, -, rfl⟩ := List.mem_map.1 he
        unfold Row.entity
        cases r.origin <;> rfl
      · obtain ⟨v, -, rfl⟩ := List.mem_map.1 he
        unfold Value.entity
        cases v.origin <;> rfl
    unfold isKnown contains
    simp [hkind, he]

theorem isKnown_of_grounds (hs : s.store.Sound) {e : Entity}
    (h : s.store.Grounds setup.catalog e) : d.isKnown setup s e := by
  unfold isKnown
  rcases h with he | ⟨r, hr, rfl⟩ | ⟨v, hv, rfl⟩
  · rw [if_pos (Catalog.isDefinitional_of_mem he)]
    exact decide_eq_true he
  · have hkind : r.entity.kind.isDefinitional = false := by
      unfold Row.entity
      cases r.origin <;> rfl
    simp [hkind, hs.contains_row hr]
  · have hkind : v.entity.kind.isDefinitional = false := by
      unfold Value.entity
      cases v.origin <;> rfl
    simp [hkind, hs.contains_value hv]

theorem checkEdge_of_grounded (hs : s.store.Sound) (ht : t ∈ setup.catalog.tables)
    (h : d.Grounded setup.catalog s.store t) {edge : Edge} (hedge : edge ∈ d.edges) :
    d.checkEdge setup s edge = .ok () := by
  refine Except.bind_eq_ok_iff.2 ⟨(), h.checked edge hedge, Except.bind_eq_ok_iff.2 ⟨(), ?_, ?_⟩⟩
  · exact if_pos (isKnown_of_owns ht (h.owners edge hedge))
  · exact if_pos (isKnown_of_grounds hs (h.targets edge hedge))

/-- A draft that is grounded in the store enters the state as a whole. -/
theorem commit_of_grounded (hs : s.store.Sound) (ht : t ∈ setup.catalog.tables)
    (h : d.Grounded setup.catalog s.store t) (hfresh : ∀ edge ∈ d.edges, edge ∉ s.log.edges) :
    d.commit setup s = (.ok (), committed s d) := by
  have hchecked : d.edges.forM (d.checkEdge setup s) = .ok () :=
    List.forM_eq_ok_iff.2 fun _ hedge => checkEdge_of_grounded hs ht h hedge
  unfold commit
  rw [hchecked]
  dsimp only
  rw [EdgeLog.absorbAll_of_fresh h.checked h.nodup hfresh]
  rfl

end Draft

end Provenance
