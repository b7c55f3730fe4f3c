import Provenance.Proofs.Actions

/-!
# Recording the edges between definitions

Whether an engine records the edges between definitions has no part in anything else: whatever is done to two
runs that differ in this setting, they give the same results, fail alike and materialize the same, and the one
without these edges has all other edges in the same order (`Engine.recording_additive`).
-/

namespace Provenance

/-- The engine with the edges between definitions recorded, or not. -/
def Engine.recording (engine : Engine) (recordDefinitions : Bool) : Engine :=
  { engine with settings := { engine.settings with recordDefinitions } }

/-- The second run has what the first one has, with identities renamed and without the edges between
definitions. -/
structure Run.WithoutDefinitions (ρ : Id → Id) (r r' : Run) : Prop where
  results : r.SameResults ρ r'
  failures : r'.state.failures = r.state.failures
  store : r.state.store.Image ρ r'.state.store
  edges : r'.state.log.edges =
    (r.state.log.edges.filter fun edge => !edge.kind.isDefinitional).map (Edge.rename ρ)

/-- Runs of an engine with and without the edges between definitions, from whatever numbers their identities
begin at. Up to a renaming that leaves the definitions, and that takes no two identities of the first run to
one, they give the same whatever is done to both, but for these edges. -/
theorem Engine.recording_additive {schema : Schema} {first firstId firstId' : Nat} {engine : Engine}
    (compiled : schema.compile first = .ok engine.catalog) (ids : schema.nextId first ≤ firstId)
    (ids' : schema.nextId first ≤ firstId') (now now' : Timestamp) (name : String)
    (context : List (String × Json)) (data : SourceData) :
    ∃ ρ : Id → Id, (∀ e ∈ engine.catalog.entities, ρ e.id = e.id) ∧
      Set.InjOn ρ {id | (∃ e ∈ engine.catalog.entities, e.id = id) ∨ firstId ≤ id.number} ∧
      ∀ actions actions', List.Forall₂ (Run.Action.Renamed ρ) actions actions' →
        (((engine.recording true).start firstId now name context data).actAll actions).WithoutDefinitions ρ
          (((engine.recording false).start firstId' now' name context data).actAll actions') := by
  have hwf := Schema.wellFormed_of_compile compiled
  have hlt : ∀ e ∈ engine.catalog.entities, e.id.number < schema.nextId first :=
    fun e he => Schema.id_lt_of_compile compiled he
  have hbelow : ∀ e ∈ engine.catalog.entities, e.id.number < firstId :=
    fun e he => Nat.lt_of_lt_of_le (hlt e he) ids
  have hbelow' : ∀ e ∈ engine.catalog.entities, e.id.number < firstId' :=
    fun e he => Nat.lt_of_lt_of_le (hlt e he) ids'
  obtain ⟨ρ, hρ⟩ := Id.exists_moves hbelow hbelow'
  refine ⟨ρ, hρ.fixed, hρ.injOn, fun actions actions' hactions => ?_⟩
  have hstart : Run.Moved ρ firstId firstId' (fun kind => !kind.isDefinitional)
      ((engine.recording true).start firstId now name context data)
      ((engine.recording false).start firstId' now' name context data) :=
    Run.moved_start now now' hwf hbelow hbelow'
      (Setup.keeps_recording (engine.start firstId now name context data).setup) hρ
  have hafter := hstart.actAll hactions
  exact ⟨hafter.sameResults, hafter.failures, hafter.store, hafter.edges⟩

namespace Sample

/-- Of the edges of the totals four are between definitions. -/
theorem recording_total :
    let r := run.actAll [.call (.execute "total"), .reset, .call (.materialize "total")]
    ∃ r' : Run, r.state.log.edges.length = 10 ∧ r'.state.log.edges.length = 6 ∧
      ∃ ρ, r.WithoutDefinitions ρ r' := by
  have hcompiled : schema.compile 0 = .ok (⟨catalog, ⟨none, .abort, true, true⟩, .empty⟩ : Engine).catalog :=
    rfl
  have hfirst : schema.nextId 0 ≤ 10 := by decide
  have hfirst' : schema.nextId 0 ≤ 12 := by decide
  obtain ⟨ρ, -, -, halike⟩ :=
    Engine.recording_additive hcompiled hfirst hfirst' .epoch .epoch "run" [] data
  have hactions : List.Forall₂ (Run.Action.Renamed ρ)
      [.call (.execute "total"), .reset, .call (.materialize "total")]
      [.call (.execute "total"), .reset, .call (.materialize "total")] :=
    .cons (.call (.execute "total")) (.cons .reset (.cons (.call (.materialize "total")) .nil))
  exact ⟨_, rfl, rfl, ρ, halike _ _ hactions⟩

end Sample

end Provenance
