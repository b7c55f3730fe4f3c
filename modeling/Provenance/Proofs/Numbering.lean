import Provenance.Proofs.Lineage.Known
import Provenance.Proofs.Outcome

/-!
# The identities of a run

Whatever a run is asked for, all identities that it tells lie below the first one that is free: those of its
catalog, of its trail, of what is materialized in it and of what its edges link. Main statement:
`Run.Reachable.numbered`.
-/

namespace Provenance

theorem Schema.id_of_compile {s : Schema} {first : Nat} {c : Catalog} (h : s.compile first = .ok c) :
    c.id = ⟨first⟩ := by
  obtain ⟨_, -, h⟩ := Except.bind_eq_ok_iff.1 h
  obtain ⟨_, -, h⟩ := Except.bind_eq_ok_iff.1 h
  obtain ⟨_, -, h⟩ := Except.bind_eq_ok_iff.1 h
  obtain ⟨_, -, h⟩ := Except.bind_eq_ok_iff.1 h
  cases h
  rfl

/-- Asking for tables keeps the trail, which everything that is committed belongs to, and frees no
identity. -/
theorem Initializes.trail_and_nextId {setup : Setup} {path es : List Entity} {s : State}
    {before cs : List Commit} {out : Outcome} (hwf : setup.catalog.WellFormed)
    (h : Initializes setup path es s cs out) (hs : s.MadeOf setup before) :
    out.2.trail = s.trail ∧ s.nextId ≤ out.2.nextId ∧
      ∀ c ∈ cs, c.draft.extent.populated.trail = s.trail.id := by
  induction h generalizing before with
  | done | dangling | failedBefore | cyclic =>
    exact ⟨rfl, Nat.le_refl _, fun _ hc => absurd hc List.not_mem_nil⟩
  | present known there next ih => exact ih hs.skip
  | blocked tries sources ih => exact ih hs
  | refused tries sources settled ih =>
    obtain ⟨-, rfl⟩ := stage_of_refused hwf tries sources hs settled
    exact ih hs
  | @built path rest e s s' s'' t cs cs' d out tries sources staged settled next ihsources ihnext =>
    obtain ⟨rfl, hmade⟩ := state_of_built hwf tries sources hs staged settled
    obtain ⟨htrail, hle, hcs⟩ := ihsources hs
    obtain ⟨htrail', hle', hcs'⟩ := ihnext hmade
    have hpopulated := (grounded_of_stage hwf (Catalog.mem_of_tableById? tries.known).1 rfl rfl staged).2
    have hnext : s'.nextId ≤ d.idsEnd s'.nextId := by
      unfold Draft.idsEnd
      omega
    refine ⟨htrail'.trans htrail, Nat.le_trans hle (Nat.le_trans hnext hle'), fun c hc => ?_⟩
    rcases List.mem_append.1 hc with hc | hc
    · exact hcs c hc
    · rcases List.mem_cons.1 hc with rfl | hc
      · rw [hpopulated]
        exact congrArg Trail.id htrail
      · exact (hcs' c hc).trans (congrArg Trail.id htrail)

/-- A thing that a run knows lies below the first identity that is free. -/
theorem State.MadeOf.id_lt_of_known {setup : Setup} {s : State} {cs : List Commit} {e : Entity}
    (hwf : setup.catalog.WellFormed) (h : s.MadeOf setup cs) (he : e ∈ knownEntities setup.catalog s.store) :
    e.id.number < s.nextId := by
  rcases List.mem_append.1 he with he | he
  · exact h.above e he
  · have hid := List.mem_map_of_mem (f := Entity.id) he
    rw [Store.map_id_entities] at hid
    obtain ⟨x, hx, hid⟩ := List.mem_flatMap.1 hid
    obtain ⟨c, hc, rfl⟩ := h.exists_of_mem_extents hx
    exact Nat.lt_of_lt_of_le ((h.sound hwf).range_of_mem_ids hx hid).2 (h.after c hc)

namespace Run

variable {r : Run}

/-- The catalog and the trail of a run lie below the first identity that is free, and everything that is
materialized belongs to the trail. -/
structure Numbered (r : Run) : Prop where
  catalog : r.setup.catalog.id.number < r.state.nextId
  trail : r.state.trail.id.number < r.state.nextId
  described : r.state.trail.catalog = r.setup.catalog.id
  populated : ∀ p ∈ r.state.store.populated, p.trail = r.state.trail.id

theorem Numbered.after (hwf : r.setup.catalog.WellFormed) {cs : List Commit} (hmade : r.state.MadeOf r.setup cs)
    (h : r.Numbered) (call : Call) : (r.after call).Numbered := by
  obtain ⟨cs', out, hout, hsame, hsetup⟩ := exists_initializes hwf hmade call
  obtain ⟨-, hle, hcs'⟩ := hout.trail_and_nextId hwf hmade
  have hmade' := (hout.madeOf_and_committed hwf hmade).1
  have hid : (r.after call).state.trail.id = r.state.trail.id ∧
      (r.after call).state.trail.catalog = r.state.trail.catalog := by
    rcases r.trail_after call with htrail | ⟨status, now, htrail⟩
    · rw [htrail]
      exact ⟨rfl, rfl⟩
    · obtain ⟨_, _, heq⟩ := r.state.trail.finish_eq status now
      rw [htrail, heq]
      exact ⟨rfl, rfl⟩
  constructor
  · rw [hsetup, hsame.nextId]
    exact Nat.lt_of_lt_of_le h.catalog hle
  · rw [hid.1, hsame.nextId]
    exact Nat.lt_of_lt_of_le h.trail hle
  · rw [hid.2, hsetup]
    exact h.described
  · intro p hp
    obtain ⟨x, hx, rfl⟩ := List.mem_map.1 hp
    rw [hsame.store] at hx
    obtain ⟨c, hc, rfl⟩ := hmade'.exists_of_mem_extents hx
    rw [hid.1]
    rcases List.mem_append.1 hc with hc | hc
    · exact h.populated _ (List.mem_map_of_mem (hmade.mem_extents hc))
    · exact hcs' c hc

/-- The identities of a reachable run are numbered. -/
theorem Reachable.numbered (h : r.Reachable) : r.Numbered := by
  induction h with
  | @start schema first firstId engine now name context data compiled ids =>
    have hcatalog : engine.catalog.id.number < firstId := by
      rw [Schema.id_of_compile compiled]
      unfold Schema.nextId at ids
      change first < firstId
      omega
    exact ⟨Nat.lt_succ_of_lt hcatalog, Nat.lt_succ_self _, rfl, fun _ hp => absurd hp List.not_mem_nil⟩
  | call h call ih =>
    obtain ⟨hwf, cs, hmade⟩ := h.exists_madeOf
    exact ih.after hwf hmade call
  | reset h ih =>
    exact ⟨Nat.lt_succ_of_lt ih.catalog, Nat.lt_succ_self _, rfl, fun _ hp => absurd hp List.not_mem_nil⟩
  | wait h now ih => exact ⟨ih.catalog, ih.trail, ih.described, ih.populated⟩

end Run

end Provenance
