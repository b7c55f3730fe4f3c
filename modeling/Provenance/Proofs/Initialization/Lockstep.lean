import Provenance.Proofs.Reachable

/-!
# Initialization in lockstep

Initialization from two states of one setup that remember the same tables, as materialized and as failed,
takes the same steps: it gives the same result and leaves states that remember the same tables again
(`Initializes.exists_alike`). Identities, the time and the trail have no part in it.
-/

namespace Provenance

variable {setup : Setup} {path es : List Entity} {s s' : State} {t : Table} {depth : Nat}

/-! ## Initialization is determined -/

/-- The tables under way are different tables of the catalog, and the depth suffices for all others. -/
structure Ample (setup : Setup) (depth : Nat) (path : List Entity) : Prop where
  nodup : path.Nodup
  known : ∀ e ∈ path, ∃ t ∈ setup.catalog.tables, t.entity = e
  depth : setup.catalog.tables.length + 1 ≤ path.length + depth

namespace Ample

theorem start : Ample setup (setup.catalog.tables.length + 1) [] :=
  ⟨.nil, fun _ he => absurd he List.not_mem_nil, Nat.le_add_left _ _⟩

theorem exists_succ (h : Ample setup depth path) : ∃ n, depth = n + 1 := by
  have hle := length_le_of_path h.nodup h.known
  have hdepth := h.depth
  exact ⟨depth - 1, by omega⟩

theorem enter (h : Ample setup (depth + 1) path) (ht : t ∈ setup.catalog.tables) (hnew : t.entity ∉ path) :
    Ample setup depth (path ++ [t.entity]) where
  nodup := by
    rw [List.nodup_append_comm]
    exact List.nodup_cons.2 ⟨hnew, h.nodup⟩
  known := path_snoc h.known ht
  depth := by
    have hdepth := h.depth
    rw [List.length_append, List.length_singleton]
    omega

end Ample

variable {before before' cs : List Commit} {out : Outcome}

/-- A run gives what initialization gives. -/
theorem Initializes.initAll_eq (h : Initializes setup path es s cs out) (hample : Ample setup depth path) :
    initAll (initTable setup depth path) es s = out := by
  induction h generalizing depth with
  | done => rfl
  | present known there next ih =>
    obtain ⟨n, rfl⟩ := hample.exists_succ
    rw [initAll_cons_of_ok (initTable_of_present known there)]
    exact ih hample
  | dangling unknown =>
    obtain ⟨n, rfl⟩ := hample.exists_succ
    exact initAll_cons_of_error (initTable_of_dangling unknown)
  | failedBefore known new failed =>
    obtain ⟨n, rfl⟩ := hample.exists_succ
    exact initAll_cons_of_error (initTable_of_failedBefore known new failed)
  | cyclic known new untried under =>
    obtain ⟨n, rfl⟩ := hample.exists_succ
    exact initAll_cons_of_error (initTable_of_cyclic known new untried under)
  | blocked tries sources ih =>
    obtain ⟨n, rfl⟩ := hample.exists_succ
    have henter := hample.enter (Catalog.mem_of_tableById? tries.known).1 tries.apart
    exact initAll_cons_of_error (initTable_of_blocked tries (ih henter))
  | refused tries sources settled ih =>
    obtain ⟨n, rfl⟩ := hample.exists_succ
    have henter := hample.enter (Catalog.mem_of_tableById? tries.known).1 tries.apart
    exact initAll_cons_of_error ((initTable_of_tries tries (ih henter)).trans settled)
  | built tries sources staged settled next ihsources ihnext =>
    obtain ⟨n, rfl⟩ := hample.exists_succ
    have henter := hample.enter (Catalog.mem_of_tableById? tries.known).1 tries.apart
    have htable := initTable_of_tries tries (ihsources henter)
    rw [staged, settled] at htable
    rw [initAll_cons_of_ok htable]
    exact ihnext hample

/-- Asking for a table by itself gives what a run through that table gives. -/
theorem Initializes.initTable_eq (h : Initializes setup [] [t.entity] s cs out) :
    initTable setup (setup.catalog.tables.length + 1) [] t.entity s = out := by
  have hall := h.initAll_eq .start
  unfold initAll at hall
  rcases hout : initTable setup (setup.catalog.tables.length + 1) [] t.entity s with ⟨_ | _, s'⟩
  · rw [hout] at hall
    exact hall
  · rw [hout] at hall
    exact hall

/-! ## States that remember the same tables -/

/-- Two states remember the same tables: those of the same commits, and the same failures. -/
structure Remember (s : State) (before : List Commit) (s' : State) (before' : List Commit) : Prop where
  tables : before'.map Commit.table = before.map Commit.table
  failures : s'.failures = s.failures

namespace Remember

theorem exists_commit (h : Remember s before s' before') :
    (∃ c ∈ before, c.table = t) ↔ ∃ c ∈ before', c.table = t := by
  rw [← List.mem_map, ← List.mem_map, h.tables]

theorem failureOf?_eq (h : Remember s before s' before') (id : Id) : s'.failureOf? id = s.failureOf? id := by
  unfold State.failureOf?
  rw [h.failures]

theorem recordFailure (h : Remember s before s' before') (failure : Error) :
    Remember (s.recordFailure t failure) before (s'.recordFailure t failure) before' :=
  ⟨h.tables, congrArg (· ++ _) h.failures⟩

theorem recordSuccess (h : Remember s before s' before') (d d' : Draft) :
    Remember ((d.committed s).recordSuccess t d.extent.columns) (before ++ [⟨t, d⟩])
      ((d'.committed s').recordSuccess t d'.extent.columns) (before' ++ [⟨t, d'⟩]) where
  tables := by
    rw [List.map_append, h.tables, List.map_append]
    rfl
  failures := h.failures

end Remember

/-- A table whose sources are there is staged alike in states that remember the same tables. -/
theorem Remember.stage_rel (hwf : setup.catalog.WellFormed) (h : Remember s before s' before')
    (hs : s.MadeOf setup before) (hs' : s'.MadeOf setup before') (ht : t ∈ setup.catalog.tables)
    (hsources : ∀ t', setup.catalog.Reads t t' → ∃ c ∈ before, c.table = t') :
    Except.Rel (Draft.Renamed setup.catalog (s.store.Twins s'.store))
      (stage setup s.store (s.opening t) t) (stage setup s'.store (s'.opening t) t) := by
  refine Provenance.stage_rel hwf (hs.sound hwf) (hs'.sound hwf) ht ⟨rfl, rfl⟩ ⟨rfl, rfl⟩
    fun t' hreads => ?_
  obtain ⟨c, hc, rfl⟩ := hsources t' hreads
  obtain ⟨c', hc', heq⟩ := h.exists_commit.1 ⟨c, hc, rfl⟩
  refine ⟨_, hs.mem_extents hc, _, hs'.mem_extents hc', (hs.history.populates hc).table, ?_⟩
  exact (hs.history.derives hwf hc).twin hwf (heq ▸ hs'.history.derives hwf hc')

/-! ## Simulations -/

/-- States of one setup simulate states of another one over the same catalog: they remember the same tables, and
stay related whatever initialization does to both, if a table whose sources are there is staged alike. -/
structure Simulates (setup setup' : Setup) (R : State → List Commit → State → List Commit → Prop) : Prop where
  catalog : setup'.catalog = setup.catalog
  remember : ∀ {s before s' before'}, R s before s' before' → Remember s before s' before'
  skip : ∀ {s before s' before'}, R s before s' before' → R s.skip before s'.skip before'
  recordFailure : ∀ {s before s' before'} (t : Table) (failure : Error), R s before s' before' →
    R (s.recordFailure t failure) before (s'.recordFailure t failure) before'
  stage : ∀ {s before s' before'} {t : Table}, s.MadeOf setup before → s'.MadeOf setup' before' →
    R s before s' before' → t ∈ setup.catalog.tables →
    (∀ t', setup.catalog.Reads t t' → ∃ c ∈ before, c.table = t') →
    Except.Rel
      (fun d d' => R ((d.committed s).recordSuccess t d.extent.columns) (before ++ [⟨t, d⟩])
        ((d'.committed s').recordSuccess t d'.extent.columns) (before' ++ [⟨t, d'⟩]))
      (stage setup s.store (s.opening t) t) (stage setup' s'.store (s'.opening t) t)

namespace Simulates

variable {setup' : Setup} {R : State → List Commit → State → List Commit → Prop} {e : Entity}

theorem isInitialized_eq (h : Simulates setup setup' R) (hwf : setup.catalog.WellFormed)
    (hs : s.MadeOf setup before) (hs' : s'.MadeOf setup' before') (hR : R s before s' before')
    (ht : t ∈ setup.catalog.tables) : s'.isInitialized t.id = s.isInitialized t.id := by
  have hcatalog := h.catalog
  rw [Bool.eq_iff_iff, hs.isInitialized_iff hwf ht, hs'.isInitialized_iff (hcatalog ▸ hwf) (hcatalog ▸ ht),
    (h.remember hR).exists_commit]

theorem tries (h : Simulates setup setup' R) (hwf : setup.catalog.WellFormed) (hs : s.MadeOf setup before)
    (hs' : s'.MadeOf setup' before') (hR : R s before s' before') (tries : Tries setup path e s t) :
    Tries setup' path e s' t where
  known := h.catalog ▸ tries.known
  new := (h.isInitialized_eq hwf hs hs' hR (Catalog.mem_of_tableById? tries.known).1).trans tries.new
  untried := ((h.remember hR).failureOf?_eq t.id).trans tries.untried
  apart := tries.apart

end Simulates

/-- Initialization takes the same steps in a state that simulates another one. -/
theorem Initializes.simulate {setup' : Setup} {R : State → List Commit → State → List Commit → Prop}
    (hwf : setup.catalog.WellFormed) (hsim : Simulates setup setup' R)
    (h : Initializes setup path es s cs out) (hs : s.MadeOf setup before) (hs' : s'.MadeOf setup' before')
    (hR : R s before s' before') :
    ∃ cs' out', Initializes setup' path es s' cs' out' ∧ out'.1 = out.1 ∧
      R out.2 (before ++ cs) out'.2 (before' ++ cs') := by
  have hcatalog := hsim.catalog
  have hwf' : setup'.catalog.WellFormed := hcatalog ▸ hwf
  induction h generalizing before s' before' with
  | done => exact ⟨[], _, .done, rfl, by simpa using hR⟩
  | present known there next ih =>
    have ht := (Catalog.mem_of_tableById? known).1
    obtain ⟨cs', out', hout, hresult, hR'⟩ := ih hs.skip hs'.skip (hsim.skip hR)
    have hthere := (hsim.isInitialized_eq hwf hs hs' hR ht).trans there
    exact ⟨cs', out', .present (hcatalog ▸ known) hthere hout, hresult, hR'⟩
  | dangling unknown => exact ⟨[], _, .dangling (hcatalog ▸ unknown), rfl, by simpa using hR⟩
  | failedBefore known new failed =>
    have ht := (Catalog.mem_of_tableById? known).1
    have hnew := (hsim.isInitialized_eq hwf hs hs' hR ht).trans new
    have hfailed := ((hsim.remember hR).failureOf?_eq _).trans failed
    exact ⟨[], _, .failedBefore (hcatalog ▸ known) hnew hfailed, rfl, by simpa using hR⟩
  | cyclic known new untried under =>
    have ht := (Catalog.mem_of_tableById? known).1
    have hnew := (hsim.isInitialized_eq hwf hs hs' hR ht).trans new
    have huntried := ((hsim.remember hR).failureOf?_eq _).trans untried
    exact ⟨[], _, .cyclic (hcatalog ▸ known) hnew huntried under, rfl, by simpa using hR⟩
  | @blocked path _ e s _ t _ failure tries _ ih =>
    obtain ⟨cs', ⟨result, s₁'⟩, hsources, rfl, hR'⟩ := ih hs hs' hR
    have htries := hsim.tries hwf hs hs' hR tries
    exact ⟨cs', _, .blocked htries hsources, rfl, hsim.recordFailure t failure hR'⟩
  | @refused path _ e s s₁ _ t cs failure tries sources settled ih =>
    have ht := (Catalog.mem_of_tableById? tries.known).1
    obtain ⟨cs', ⟨result, s₁'⟩, hsources, rfl, hR'⟩ := ih hs hs' hR
    have htries := hsim.tries hwf hs hs' hR tries
    have hmade := (sources.madeOf_and_committed hwf hs).1
    have hmade' := (hsources.madeOf_and_committed hwf' hs').1
    obtain ⟨hstage, rfl⟩ := sources.stage_of_refused hwf tries hs settled
    have hrel := hsim.stage hmade hmade' hR' ht fun t' => sources.exists_source hwf hs
    rw [hstage] at hrel
    have hsettled : settle setup' t (Provenance.stage setup' s₁'.store (s₁'.opening t) t) s₁' =
        (.error failure, s₁'.recordFailure t failure) := by
      rw [hrel.eq_error]
      rfl
    exact ⟨cs', _, .refused htries hsources hsettled, rfl, hsim.recordFailure t failure hR'⟩
  | @built path rest e s s₁ s₂ t cs cs₂ d out tries sources staged settled next ihsources ihnext =>
    have ht := (Catalog.mem_of_tableById? tries.known).1
    obtain ⟨cs', ⟨result, s₁'⟩, hsources, rfl, hR'⟩ := ihsources hs hs' hR
    have htries := hsim.tries hwf hs hs' hR tries
    have hmade := (sources.madeOf_and_committed hwf hs).1
    have hmade' := (hsources.madeOf_and_committed hwf' hs').1
    have hrel := hsim.stage hmade hmade' hR' ht fun t' => sources.exists_source hwf hs
    rw [staged] at hrel
    obtain ⟨d', staged', hbuiltR⟩ := hrel.of_ok
    obtain ⟨rfl, hbuilt⟩ := sources.state_of_built hwf tries hs staged settled
    have settled' := hsources.settle_of_staged hwf' htries hs' staged'
    obtain ⟨-, hbuilt'⟩ := hsources.state_of_built hwf' htries hs' staged' settled'
    obtain ⟨cs₂', out', hout, hresult, hR₂⟩ := ihnext hbuilt hbuilt' hbuiltR
    refine ⟨cs' ++ ⟨t, d'⟩ :: cs₂', out', .built htries hsources staged' settled' hout, hresult, ?_⟩
    simpa using hR₂

theorem simulates_remember (hwf : setup.catalog.WellFormed) : Simulates setup setup Remember where
  catalog := rfl
  remember h := h
  skip h := ⟨h.tables, h.failures⟩
  recordFailure _ failure h := h.recordFailure failure
  stage hs hs' h ht hsources :=
    (h.stage_rel hwf hs hs' ht hsources).imp fun d d' _ => h.recordSuccess d d'

/-- Initialization from states that remember the same tables takes the same steps. -/
theorem Initializes.exists_alike (hwf : setup.catalog.WellFormed) (h : Initializes setup path es s cs out)
    (hs : s.MadeOf setup before) (hs' : s'.MadeOf setup before') (halike : Remember s before s' before') :
    ∃ cs' out', Initializes setup path es s' cs' out' ∧ out'.1 = out.1 ∧
      Remember out.2 (before ++ cs) out'.2 (before' ++ cs') :=
  h.simulate hwf (simulates_remember hwf) hs hs' halike

/-- Asking for a table gives the same result in two runs of one setup that remember the same tables. -/
theorem Run.initTable_alike {r r' : Run} {cs' : List Commit} (hwf : r.setup.catalog.WellFormed)
    (h : r.state.MadeOf r.setup cs) (h' : r'.state.MadeOf r.setup cs') (hsetup : r'.setup = r.setup)
    (halike : Remember r.state cs r'.state cs') (name : String) :
    (r'.initTable name).1 = (r.initTable name).1 := by
  cases hfind : r.setup.catalog.table? name with
  | none => rw [initTable_of_unknown hfind, initTable_of_unknown (hsetup ▸ hfind)]
  | some t =>
    obtain ⟨ds, hout⟩ := initializes_of_initTable r.setup t r.state
    obtain ⟨ds', out', hout', hresult, -⟩ := hout.exists_alike hwf h h' halike
    rw [initTable_of_table? hwf h hfind, initTable_of_table? (hsetup ▸ hwf) (hsetup ▸ h') (hsetup ▸ hfind),
      step, step, hsetup, hout'.initTable_eq, hresult]

end Provenance
