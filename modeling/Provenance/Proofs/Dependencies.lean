import Provenance.Proofs.Confluence
import Provenance.Proofs.Graph.Cycle
import Provenance.Proofs.Initialization.Machine
import Provenance.Proofs.Initialization.Sources

/-!
# Cyclic definitions

A schema may derive tables from each other in a circle. Asking for one of them comes to an end all the same,
and if it fails with a cycle then the path that it tells of is one of the definitions
(`Catalog.DependencyCycle`): the tables under way are each derived from the one before, so where a request comes
back to one of them they close (`Initializes.closedPath`). No table on a cycle or above one is ever
materialized. Main statement: `Run.Reachable.cyclic_definitions`.
-/

namespace Provenance

/-! ## Cycles of definitions -/

/-- What an entity is derived from, if it is a table. -/
def Catalog.sourcesOf (c : Catalog) (e : Entity) : List Entity :=
  (c.tables.filter fun t => t.entity = e).flatMap Table.sources

/-- A cycle of the definitions, given by what is on it: derived tables of which each has the next one among its
sources. The first one comes again at the end, and no other one does. -/
structure Catalog.DependencyCycle (c : Catalog) (path : List Entity) : Prop where
  two_le : 2 ≤ path.length
  closes : path.head? = path.getLast?
  derived : ∀ e ∈ path, ∃ t ∈ c.tables, t.entity = e ∧ t.creation.isSome
  reads : path.IsChain fun e e' => ∃ t ∈ c.tables, t.entity = e ∧ e' ∈ t.sources
  nodup : path.dropLast.Nodup

namespace Catalog

variable {c : Catalog} {t : Table} {e e' : Entity}

theorem mem_sourcesOf : e' ∈ c.sourcesOf e ↔ ∃ t ∈ c.tables, t.entity = e ∧ e' ∈ t.sources := by
  simp [sourcesOf, and_assoc]

theorem sources_subset (ht : t ∈ c.tables) : t.sources ⊆ c.sourcesOf t.entity := fun _ he =>
  mem_sourcesOf.2 ⟨t, ht, rfl, he⟩

/-- Only derived tables have sources. -/
theorem derived_of_mem_sources (he : e ∈ t.sources) : t.creation.isSome := by
  unfold Table.sources at he
  cases hc : t.creation with
  | none =>
    rw [hc] at he
    cases he
  | some creation => rfl

end Catalog

/-- A closed path of sources is a cycle of the definitions. -/
theorem dependencyCycle_of_closedPath {c : Catalog} {path : List Entity}
    (h : Graph.ClosedPath id c.sourcesOf path) : c.DependencyCycle path := by
  obtain ⟨hlength, hcloses, hchain, hnodup⟩ := h
  rw [Option.map_id, id, id] at hcloses
  rw [List.map_id] at hnodup
  refine ⟨hlength, hcloses, fun e he => ?_, hchain.imp fun _ _ => Catalog.mem_sourcesOf.1, hnodup⟩
  have hderived : ∀ e ∈ path.dropLast, ∃ t ∈ c.tables, t.entity = e ∧ t.creation.isSome := by
    intro e he
    obtain ⟨e', he'⟩ := hchain.exists_of_mem_dropLast he
    obtain ⟨t, ht, hentity, hmem⟩ := Catalog.mem_sourcesOf.1 he'
    exact ⟨t, ht, hentity, Catalog.derived_of_mem_sources hmem⟩
  apply hderived
  -- The last entity is the first one, so it comes before the end as well.
  obtain _ | ⟨first, _ | ⟨second, rest⟩⟩ := path
  · cases he
  · simp at hlength
  · rw [← List.dropLast_append_getLast (List.cons_ne_nil first _), List.mem_append, List.mem_singleton] at he
    rcases he with he | rfl
    · exact he
    · have hlast : first = (first :: second :: rest).getLast (List.cons_ne_nil _ _) := by
        rw [List.getLast?_eq_some_getLast (List.cons_ne_nil _ _)] at hcloses
        exact Option.some.inj hcloses
      rw [← hlast]
      exact List.mem_cons_self

/-! ## Failures that tell of a cycle -/

namespace Initializes

variable {setup : Setup} {path es closed : List Entity} {s : State} {before cs : List Commit} {out : Outcome}
  {start : Entity}

/-- A request that fails with a cycle tells of a closed path of sources, unless a function raises the error. -/
theorem closedPath (hwf : setup.catalog.WellFormed) (hnamed : setup.catalog.Named)
    (h : Initializes setup path es s cs out) (hs : s.MadeOf setup before) (hask : Asking setup path es)
    (htrace : Graph.Trace id setup.catalog.sourcesOf start path es) (hout : out.1 = .error (.cyclic closed)) :
    setup.functions.Raises (.cyclic closed) ∨ Graph.ClosedPath id setup.catalog.sourcesOf closed := by
  -- The path is a trace of the graph of sources: each table on it was asked for as a source of the one before.
  induction h generalizing before with
  | done | dangling | failedBefore => cases hout
  | present _ _ _ ih => exact ih hs.skip hask.tail htrace.others hout
  | cyclic known _ _ under =>
    cases hout
    obtain ⟨-, rfl⟩ := hask.entity_eq hwf known
    exact .inr (htrace.closedPath (by rwa [List.map_id]))
  | blocked tries _ ih =>
    cases hout
    obtain ⟨ht, rfl⟩ := hask.entity_eq hwf tries.known
    have hdeeper := htrace.deeper (by rw [List.map_id]; exact tries.apart)
    exact ih hs (hask.sources hwf ht) (hdeeper.mono (Catalog.sources_subset ht)) rfl
  | refused tries sources settled =>
    cases hout
    rcases sources.cases_of_refused hwf hnamed tries hs settled with (he | he) | he
    · cases he
    · cases he
    · exact .inl he
  | built tries sources staged settled _ _ ihnext =>
    obtain ⟨rfl, hmade⟩ := state_of_built hwf tries sources hs staged settled
    exact ihnext hmade hask.tail htrace.others hout

end Initializes

/-! ## Runs over cyclic definitions -/

theorem Functions.not_raises_cyclic_standard {path : List Entity} : ¬standard.Raises (.cyclic path) := by
  intro h
  cases computational_of_raises_standard h

theorem Derivable.reaches {setup : Setup} {t u : Table} (h : Derivable setup t)
    (hreach : Relation.ReflTransGen setup.catalog.Reads t u) : Derivable setup u := by
  induction hreach with
  | refl => exact h
  | tail _ hreads ih => exact ih.source hreads

namespace Run

variable {r : Run} {t u : Table}

/-- A table from which a cycle can be reached is never materialized. -/
theorem Reachable.not_materialized_of_cycle (h : r.Reachable) (ht : t ∈ r.setup.catalog.tables)
    (hreach : Relation.ReflTransGen r.setup.catalog.Reads t u)
    (hcycle : Relation.TransGen r.setup.catalog.Reads u u) :
    r.state.isInitialized t.id = false ∧ ∀ p ∈ r.state.store.populated, p.table ≠ t.id := by
  have hnot : ¬Derivable r.setup t := fun hderivable => (hderivable.reaches hreach).acyclic hcycle
  obtain ⟨hwf, cs, h⟩ := h.exists_consistent
  constructor
  · rw [Bool.eq_false_iff, ne_eq, h.isInitialized_iff hwf ht]
    exact fun ⟨_, hderivable⟩ => hnot hderivable
  · intro p hp htable
    obtain ⟨t', hid, -, hderivable⟩ := (h.populated_iff hwf).1 ⟨p, hp, htable⟩
    cases hwf.table_eq hderivable.known ht hid
    exact hnot hderivable

/-- A table that fails with a cycle tells of a cycle of the definitions, unless a function raises the error. -/
theorem Reachable.dependencyCycle_of_error (h : r.Reachable) {name : String} {path : List Entity}
    (herror : (r.initTable name).1 = .error (.cyclic path)) :
    r.setup.functions.Raises (.cyclic path) ∨ r.setup.catalog.DependencyCycle path := by
  obtain ⟨hwf, cs, hmade⟩ := h.exists_madeOf
  obtain ⟨schema, first, compiled⟩ := h.exists_compile
  cases ht : r.setup.catalog.table? name with
  | none =>
    rw [initTable_of_unknown ht] at herror
    cases herror
  | some t =>
    have hask : Asking r.setup [] [t.entity] := .start fun e he =>
      ⟨t, List.mem_of_find?_eq_some ht, (List.mem_singleton.1 he).symm⟩
    obtain ⟨cs', hout⟩ := initializes_of_initTable r.setup t r.state
    rw [initTable_of_table? hwf hmade ht] at herror
    have hclosed := hout.closedPath hwf (Schema.named_of_compile compiled) hmade hask
      (.single id r.setup.catalog.sourcesOf t.entity) herror
    exact hclosed.imp_right dependencyCycle_of_closedPath

/-- Asking for a table comes to an end however its definitions depend on each other: a machine without any bound
on its depth comes to the answer of the run, never stacks a table twice and begins none twice in a trail. A
cycle that is reported is one of the definitions, unless a registered function raises the error; the standard
functions raise none. A table on a cycle, or from which one can be reached, is never materialized. -/
theorem Reachable.cyclic_definitions (h : r.Reachable) :
    (∃ m : StackMachine, m.Reachable ∧ m.Idle ∧ m.run = r) ∧
    (∀ m : StackMachine, m.Reachable → m.Idle → m.run = r →
      ∀ name t, r.setup.catalog.table name = .ok t →
        (m.asking t).Terminates ∧
        (∃ m', Relation.ReflTransGen StackMachine.Steps (m.asking t) m' ∧ m'.Idle ∧
          m'.focus = .answers (r.initTable name).1 ∧ m'.run = (r.initTable name).2) ∧
        ∀ m', Relation.ReflTransGen StackMachine.Steps (m.asking t) m' → m'.Orderly) ∧
    (∀ name path, (r.initTable name).1 = .error (.cyclic path) →
      r.setup.functions.Raises (.cyclic path) ∨ r.setup.catalog.DependencyCycle path) ∧
    (∀ path, ¬Functions.standard.Raises (.cyclic path)) ∧
    ∀ t ∈ r.setup.catalog.tables, ∀ u, Relation.ReflTransGen r.setup.catalog.Reads t u →
      Relation.TransGen r.setup.catalog.Reads u u →
      r.state.isInitialized t.id = false ∧ ∀ p ∈ r.state.store.populated, p.table ≠ t.id := by
  refine ⟨h.exists_machine, fun m hm hidle hrun name t ht => ?_, fun _ _ => h.dependencyCycle_of_error,
    fun _ => Functions.not_raises_cyclic_standard, fun t ht u => h.not_materialized_of_cycle ht⟩
  subst hrun
  have hasking := hm.request hidle (Catalog.mem_of_table ht).1
  exact ⟨hasking.terminates, h.exists_answered hm hidle rfl ht, fun m' hsteps =>
    (hasking.reaches hsteps).orderly⟩

end Run

namespace Sample

/-- A table that is derived from itself: asking for it ends with the cycle, and it is not there. -/
theorem cyclic_loop :
    run.initTable "loop" = (.error (.cyclic [⟨.derivedTable, ⟨3⟩⟩, ⟨.derivedTable, ⟨3⟩⟩]),
        (run.initTable "loop").2) ∧
      catalog.DependencyCycle [⟨.derivedTable, ⟨3⟩⟩, ⟨.derivedTable, ⟨3⟩⟩] ∧
      ∃ m : StackMachine, m.run = run ∧ (m.asking ⟨⟨3⟩, "loop", some loop⟩).Terminates := by
  have hloop : run.setup.catalog.table "loop" = .ok ⟨⟨3⟩, "loop", some loop⟩ := rfl
  have herror : (run.initTable "loop").1 = .error (.cyclic [⟨.derivedTable, ⟨3⟩⟩, ⟨.derivedTable, ⟨3⟩⟩]) := rfl
  obtain ⟨⟨m, hm, hidle, hrun⟩, hmachine, hcycle, -, -⟩ := Run.Reachable.cyclic_definitions reachable_run
  refine ⟨rfl, ?_, m, hrun, (hmachine m hm hidle hrun _ _ hloop).1⟩
  rcases hcycle _ _ herror with ⟨entry, hentry, -⟩ | hcycle
  · cases hentry
  · exact hcycle

end Sample

end Provenance
