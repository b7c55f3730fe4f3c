import Provenance.Proofs.Initialization.Confluence

/-!
# Consistent states

The invariant of the states of a run (`State.Consistent`): they are made of a history, nothing that failed in
them is derivable, and what is settled in them has settled all that it asks for. Asking for a table keeps it,
and settles the table (`Initializes.consistent`).
-/

namespace Provenance

/-- A state that is made of commits, records as failed what is not derivable, and settles what its settled
tables ask for. -/
structure State.Consistent (setup : Setup) (s : State) (cs : List Commit) : Prop where
  made : s.MadeOf setup cs
  honest : s.Honest setup
  closed : Closed setup [] (s.Settled setup cs)

namespace State.Consistent

variable {setup : Setup} {s s' : State} {cs : List Commit} {t : Table}

theorem same (h : s'.Consistent setup cs) (hs : s.Same s') : s.Consistent setup cs where
  made := h.made.same hs
  honest f hf := h.honest f (hs.failures ▸ hf)
  closed := by
    have hclosed := h.closed
    unfold Settled at hclosed ⊢
    rwa [← hs.failures] at hclosed

theorem start {trail : Trail} {nextId : Nat} {now : Timestamp}
    (above : ∀ e ∈ setup.catalog.entities, e.id.number < nextId) :
    (State.start trail nextId now).Consistent setup [] where
  made := .start above
  honest f hf := absurd hf List.not_mem_nil
  closed := by
    rintro t t' ⟨-, ⟨c, hc, -⟩ | ⟨f, hf, -⟩⟩
    · cases hc
    · cases hf

variable (hwf : setup.catalog.WellFormed)
include hwf

/-- What is settled is materialized if it is derivable, and recorded as failed if it is not. -/
theorem populated_iff (h : s.Consistent setup cs) {id : Id} :
    (∃ p ∈ s.store.populated, p.table = id) ↔
      ∃ t, t.id = id ∧ s.Settled setup cs t ∧ Derivable setup t := by
  rw [h.made.store]
  constructor
  · rintro ⟨p, hp, rfl⟩
    obtain ⟨x, hx, rfl⟩ := List.mem_map.1 hp
    obtain ⟨c, hc, rfl⟩ := List.mem_map.1 hx
    exact ⟨c.table, (h.made.history.populates hc).table.symm,
      ⟨h.made.history.known hc, .inl ⟨c, hc, rfl⟩⟩, _, h.made.history.derives hwf hc⟩
  · rintro ⟨t, rfl, ⟨-, ⟨c, hc, rfl⟩ | ⟨f, hf, hentity⟩⟩, hderivable⟩
    · exact ⟨_, List.mem_map_of_mem (Commit.extent_mem hc), (h.made.history.populates hc).table⟩
    · exact absurd hderivable (h.honest f hf t hentity)

theorem isInitialized_iff (h : s.Consistent setup cs) (ht : t ∈ setup.catalog.tables) :
    s.isInitialized t.id = true ↔ s.Settled setup cs t ∧ Derivable setup t := by
  rw [h.made.isInitialized_iff hwf ht]
  constructor
  · rintro ⟨c, hc, rfl⟩
    exact ⟨⟨ht, .inl ⟨c, hc, rfl⟩⟩, _, h.made.history.derives hwf hc⟩
  · rintro ⟨⟨-, hcommitted | ⟨f, hf, hentity⟩⟩, hderivable⟩
    · exact hcommitted
    · exact absurd hderivable (h.honest f hf t hentity)

theorem failures_iff (h : s.Consistent setup cs) {e : Entity} :
    (∃ f ∈ s.failures, f.entity = e) ↔
      ∃ t, t.entity = e ∧ s.Settled setup cs t ∧ ¬Derivable setup t := by
  constructor
  · rintro ⟨f, hf, rfl⟩
    obtain ⟨t, ht, hentity, -⟩ := h.made.failures f hf
    exact ⟨t, hentity.symm, ⟨ht, .inr ⟨f, hf, hentity⟩⟩, h.honest f hf t hentity⟩
  · rintro ⟨t, rfl, ⟨-, ⟨c, hc, rfl⟩ | hf⟩, hnot⟩
    · exact absurd ⟨_, h.made.history.derives hwf hc⟩ hnot
    · exact hf

end State.Consistent

/-- A table that is asked for by itself is settled then, with all that it asks for. -/
theorem Initializes.consistent {setup : Setup} {s : State} {before cs : List Commit} {out : Outcome}
    {t? : Option Table} (hwf : setup.catalog.WellFormed) (ht : ∀ t ∈ t?, t ∈ setup.catalog.tables)
    (h : Initializes setup [] (t?.map Table.entity).toList s cs out) (hs : s.Consistent setup before) :
    out.2.Consistent setup (before ++ cs) ∧ ∀ u, out.2.Settled setup (before ++ cs) u ↔
      s.Settled setup before u ∨ ∃ t ∈ t?, Relation.ReflTransGen (Asks setup) t u := by
  have hask : Asking setup [] (t?.map Table.entity).toList := by
    refine .start fun e he => ?_
    obtain ⟨t, hmem, rfl⟩ := Option.map_eq_some_iff.1 (Option.mem_toList.1 he)
    exact ⟨t, ht t hmem, rfl⟩
  have hasked : ∀ u, Asked setup (t?.map Table.entity).toList u ↔ t? = some u := by
    intro u
    cases t? with
    | none => exact ⟨nofun, nofun⟩
    | some t =>
      refine (asked_cons_iff hwf (ht t rfl)).trans ⟨?_, fun h => .inl (Option.some.inj h).symm⟩
      rintro (rfl | ⟨-, h⟩)
      · rfl
      · cases h
  have hsettles := h.settles hwf hs.made hask hs.honest hs.closed
  have hunder : ∀ {p : Prop} {e : Entity}, p ∨ e ∈ [] → p := fun h => h.resolve_right List.not_mem_nil
  refine ⟨⟨(h.madeOf_and_committed hwf hs.made).1, (h.honest hwf hs.made hask hs.honest).1,
    hsettles.closed⟩, fun u => ⟨fun hu => ?_, ?_⟩⟩
  · exact (hsettles.bounded u hu).imp_right fun ⟨t, hasks, hreach⟩ => ⟨t, (hasked t).1 hasks, hreach⟩
  · rintro (hu | ⟨t, hmem, hreach⟩)
    · exact hsettles.mono u hu
    · induction hreach with
      | refl => exact hunder (hsettles.reached t ((hasked t).2 hmem))
      | tail _ hasks ih => exact hunder (hsettles.closed _ _ ih hasks)

end Provenance
