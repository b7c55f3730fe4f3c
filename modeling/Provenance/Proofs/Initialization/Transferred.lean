import Provenance.Proofs.Initialization.Extension
import Provenance.Proofs.Reachable

/-!
# Initialization where more is defined

A run that materializes a table over one catalog is matched step by step over one that has more definitions
(`Initializes.transfer`): the same tables are asked for, and what is committed for them differs by the
renaming of the definitions and of what is materialized (`State.Transferred`). This needs that no further
column of a cube is there that the table, or one that it is derived from, names.
-/

namespace Provenance

variable {ρ : Id → Id} {c c' : Catalog} {n n' : Nat} {setup setup' : Setup}

/-! ## Sources -/

/-- Entities that a renaming takes to each other, with identities from a number on. -/
def Entity.RenamedFrom (ρ : Id → Id) (n : Nat) (e e' : Entity) : Prop := e' = e.rename ρ ∧ n ≤ e.id.number

theorem Id.Transfers.renames (hρ : Id.Transfers c c' n n' ρ) : Entity.Renames (Entity.RenamedFrom ρ n) where
  kind _ _ h := (congrArg Entity.kind h.1).symm
  id := by
    rintro a b _ _ ⟨rfl, ha⟩ ⟨rfl, hb⟩
    exact ⟨congrArg ρ, hρ.injOn (.inr ha) (.inr hb)⟩

section

variable {p p' : Populated} (horigin : p'.origin = p.origin)
  (hmoves : ∀ k, ρ ⟨p.id.number + k⟩ = ⟨p'.id.number + k⟩) (hn : n ≤ p.id.number)
include horigin hmoves hn

theorem SourceRow.renamed_filled (names : List String) (row : List Scalar × Nat) :
    (filled p names row).Renamed (Entity.RenamedFrom ρ n) (filled p' names row) where
  row := by
    refine ⟨?_, Nat.le_trans hn (Nat.le_trans (Nat.le_add_right _ 1) (Nat.le_add_right _ _))⟩
    rw [filled, filled, Entity.rename, Draft.rename_rowId hmoves, horigin]
  cells := by
    refine List.forall₂_map_left_iff.2 (List.forall₂_map_right_iff.2 (List.forall₂_same.2 fun cell _ => ?_))
    refine ⟨rfl, ⟨?_, ?_⟩, rfl⟩
    · rw [Cell.filled, Cell.filled, Entity.rename, Draft.rename_valueId hmoves, horigin]
    · simp only [Cell.filled, Draft.valueId]
      omega

/-- A table that is filled from payloads, with its identities moved on, as a source. -/
theorem SourceTable.renamed_filled (name : String) (names : List String) (rows : List (List Scalar)) :
    (filled p name names rows).Renamed (Entity.RenamedFrom ρ n) (filled p' name names rows) where
  name := rfl
  columns := rfl
  rows := List.forall₂_map_left_iff.2 (List.forall₂_map_right_iff.2 (List.forall₂_same.2 fun row _ =>
    SourceRow.renamed_filled horigin hmoves hn names row))

end

/-! ## Commits -/

/-- A commit of the image of a table, its identities renamed. -/
structure Commit.Transferred (ρ : Id → Id) (c c' : Catalog) (x x' : Commit) : Prop where
  table : x.table.Image ρ c c' x'.table
  draft : x.draft.Image ρ x'.draft

/-- The image of a table is filled with the same payloads under the same names. -/
theorem Commit.FilledWith.transferred {x x' : Commit} {names : List String} {rows : List (List Scalar)}
    (h : setup.ExtendedBy setup') (hx : x.Transferred ρ setup.catalog setup'.catalog x')
    (hcolumns : ∀ id ∈ x.draft.extent.columns, ∃ col ∈ setup.catalog.columnsOf x.table.id, col.id = id)
    (hmoves : ∀ k, ρ ⟨x.draft.extent.populated.id.number + k⟩ = ⟨x'.draft.extent.populated.id.number + k⟩)
    (hfilled : x.FilledWith setup names rows) : x'.FilledWith setup' names rows where
  extent := by
    rw [hx.draft.extent.columns]
    exact hx.draft.extent.eq_filled hfilled.extent hmoves
  columns := by
    rw [hx.draft.extent.columns, List.mapM_eq_ok_iff, List.forall₂_map_left_iff]
    refine (List.mapM_eq_ok_iff.1 hfilled.columns).mem_left.imp fun id name ⟨hid, hname⟩ => ?_
    obtain ⟨col, hcol, rfl⟩ := hcolumns id hid
    cases hname.symm.trans (columnName_of_mem h.catalog.wellFormed (Catalog.mem_columnsOf.1 hcol).1)
    obtain ⟨col', hcol', himage⟩ := hx.table.columns.exists_of_mem_left hcol
    rw [← himage.id, ← himage.name]
    exact columnName_of_mem h.catalog.wellFormed' (Catalog.mem_columnsOf.1 hcol').1
  width := hfilled.width

/-! ## States -/

/-- Two states, of runs whose identities begin at `n` and at `n'`, are made of commits that differ by a
renaming. Nothing has failed in the second one. -/
structure State.Transferred (ρ : Id → Id) (c c' : Catalog) (n n' : Nat) (s : State) (before : List Commit)
    (s' : State) (before' : List Commit) : Prop where
  commits : List.Forall₂ (Commit.Transferred ρ c c') before before'
  above : ∀ x ∈ before, n < x.draft.extent.populated.id.number
  trail : s'.trail.id = ρ s.trail.id
  next : ∃ k, s.nextId = n + 1 + k ∧ s'.nextId = n' + 1 + k
  failures : s'.failures = []

variable {s s' : State} {before before' : List Commit} {t t' : Table}

namespace State.Transferred

section

variable (h : s.Transferred ρ c c' n n' before s' before')
include h

theorem store (hs : s.MadeOf setup before) (hs' : s'.MadeOf setup' before') : s.store.Image ρ s'.store := by
  rw [hs.store, hs'.store]
  exact List.rel_map (fun _ _ hx => hx.draft.extent) h.commits

theorem edges (hs : s.MadeOf setup before) (hs' : s'.MadeOf setup' before') :
    s'.log.edges = s.log.edges.map (Edge.rename ρ) := by
  rw [hs.log, hs'.log, List.map_flatMap]
  exact (h.commits.flatMap_eq fun _ _ hx => hx.draft.edges.symm).symm

theorem skip : s.skip.Transferred ρ c c' n n' before s'.skip before' := { h with }

variable (hρ : Id.Transfers c c' n n' ρ)
include hρ

theorem next_opening (k : Nat) : ρ ⟨s.nextId + k⟩ = ⟨s'.nextId + k⟩ := by
  obtain ⟨i, hnext, hnext'⟩ := h.next
  exact Id.next_of_le (k := 1 + i) hρ.next (by omega) (by omega) k

theorem opening (ht : t.Image ρ c c' t') : (s.opening t).Image ρ (s'.opening t') :=
  ⟨(h.next_opening hρ 0).symm, h.trail, ht.id, ht.origin⟩

/-- Identities of a commit move on with that of its table. -/
theorem next_of_mem {x x' : Commit} (hx : x ∈ before) (htransferred : x.Transferred ρ c c' x') (k : Nat) :
    ρ ⟨x.draft.extent.populated.id.number + k⟩ = ⟨x'.draft.extent.populated.id.number + k⟩ := by
  obtain ⟨i, hi⟩ := Nat.exists_eq_add_of_le (Nat.le_of_lt (h.above x hx))
  have hid : x'.draft.extent.populated.id = ⟨n' + i⟩ := by
    rw [htransferred.draft.extent.populated.id, ← hρ.next i, ← hi]
  exact Id.next_of_le hρ.next hi (congrArg Id.number hid) k

/-- The image of a table was committed if the table was. -/
theorem exists_commit_iff (hwf : c.WellFormed) (hwf' : c'.WellFormed)
    (hbefore : ∀ x ∈ before, x.table ∈ c.tables) (ht : t ∈ c.tables) (himage : t.Image ρ c c' t') :
    (∃ x' ∈ before', x'.table = t') ↔ ∃ x ∈ before, x.table = t := by
  constructor
  · rintro ⟨x', hx', rfl⟩
    obtain ⟨x, hx, htransferred⟩ := h.commits.exists_of_mem_right hx'
    have hentity := htransferred.table.entity.symm.trans himage.entity
    have hknown := Catalog.table_entity_mem (hbefore x hx)
    exact ⟨x, hx, hwf.eq_of_entity (hbefore x hx) ht
      (hρ.rename_inj hknown (Catalog.table_entity_mem ht) hentity)⟩
  · rintro ⟨x, hx, rfl⟩
    obtain ⟨x', hx', htransferred⟩ := h.commits.exists_of_mem_left hx
    exact ⟨x', hx', hwf'.table_eq htransferred.table.known himage.known
      (htransferred.table.id.trans himage.id.symm)⟩

end

variable (hsetup : setup.ExtendedBy setup') (hρ : Id.Transfers setup.catalog setup'.catalog n n' ρ)
  (h : s.Transferred ρ setup.catalog setup'.catalog n n' before s' before') (hs : s.MadeOf setup before)
  (hs' : s'.MadeOf setup' before')
include hsetup hρ h hs hs'

/-- The image of a table is there if the table is. -/
theorem isInitialized_eq (ht : t ∈ setup.catalog.tables) (himage : t.Image ρ setup.catalog setup'.catalog t') :
    s'.isInitialized t'.id = s.isInitialized t.id := by
  rw [Bool.eq_iff_iff, hs.isInitialized_iff hsetup.catalog.wellFormed ht,
    hs'.isInitialized_iff hsetup.catalog.wellFormed' himage.known]
  exact h.exists_commit_iff hρ hsetup.catalog.wellFormed hsetup.catalog.wellFormed'
    (fun _ => hs.history.known) ht himage

/-- A table that was committed is bound in both states, and the columns that it is bound with are in the
catalog. -/
theorem bindSource {x : Commit} (hx : x ∈ before) :
    ∃ source source', Provenance.bindSource setup.catalog s.store x.table.name = .ok source ∧
      Provenance.bindSource setup'.catalog s'.store x.table.name = .ok source' ∧
      source.Renamed (Entity.RenamedFrom ρ n) source' ∧ source.name = x.table.name ∧
      ∀ column, source.hasColumn column = true → setup.catalog.hasColumn ⟨x.table.name, column⟩ = true := by
  have hwf := hsetup.catalog.wellFormed
  have hwf' := hsetup.catalog.wellFormed'
  obtain ⟨x', hx', htransferred⟩ := h.commits.exists_of_mem_left hx
  obtain ⟨names, rows, hfilled⟩ := hs.history.exists_filledWith hwf hx
  obtain ⟨_, hgrounded⟩ := hs.history.grounded hwf hx
  have hmoves := h.next_of_mem hρ hx htransferred
  have hbind := hs.history.bindSource_eq hwf hx hfilled
  have hfilled' := hfilled.transferred hsetup htransferred hgrounded.columns hmoves
  have hbind' := hs'.history.bindSource_eq hwf' hx' hfilled'
  rw [← hs.store] at hbind
  rw [← hs'.store, htransferred.table.name] at hbind'
  refine ⟨_, _, hbind, hbind', ?_, rfl, fun column hcolumn => ?_⟩
  · exact SourceTable.renamed_filled htransferred.draft.extent.populated.origin hmoves
      (Nat.le_of_lt (h.above x hx)) _ names rows
  · obtain ⟨id, hid, hname⟩ := (List.mapM_eq_ok_iff.1 hfilled.columns).exists_of_mem_right
      (List.contains_iff_mem.1 hcolumn)
    obtain ⟨col, hcol, rfl⟩ := hgrounded.columns id hid
    cases hname.symm.trans (columnName_of_mem hwf (Catalog.mem_columnsOf.1 hcol).1)
    exact Option.isSome_of_eq_some ((hsetup.catalog.named.column?_eq_some_iff hwf).2
      ⟨x.table, hs.history.known hx, rfl, hcol, rfl⟩)

theorem bindSources {names : List String} {sources : List SourceTable}
    (hnames : ∀ name ∈ names, ∃ x ∈ before, x.table.name = name)
    (hsources : names.mapM (Provenance.bindSource setup.catalog s.store) = .ok sources) :
    ∃ sources', names.mapM (Provenance.bindSource setup'.catalog s'.store) = .ok sources' ∧
      List.Forall₂ (SourceTable.Renamed (Entity.RenamedFrom ρ n)) sources sources' ∧
      ∀ name, anyHasColumn sources name = true → setup.catalog.hasColumn name = true := by
  have hsame : List.Forall₂ (fun name name' => name ∈ names ∧ name = name') names names :=
    List.forall₂_same.2 fun _ hname => ⟨hname, rfl⟩
  have hrel : Except.Rel (List.Forall₂ fun source source' => source.Renamed (Entity.RenamedFrom ρ n) source' ∧
      ∀ column, source.hasColumn column = true → setup.catalog.hasColumn ⟨source.name, column⟩ = true)
      (names.mapM (Provenance.bindSource setup.catalog s.store))
      (names.mapM (Provenance.bindSource setup'.catalog s'.store)) := by
    refine hsame.mapM ?_
    rintro name _ ⟨hname, rfl⟩
    obtain ⟨x, hx, rfl⟩ := hnames name hname
    obtain ⟨source, source', hbind, hbind', hrenamed, hsource, hhas⟩ := bindSource hsetup hρ h hs hs' hx
    rw [hbind, hbind']
    exact .ok ⟨hrenamed, hsource ▸ hhas⟩
  rw [hsources] at hrel
  obtain ⟨sources', hsources', hall⟩ := hrel.of_ok
  refine ⟨sources', hsources', hall.imp fun _ _ hsource => hsource.1, fun name hname => ?_⟩
  obtain ⟨source, hmem, hhas⟩ := List.any_eq_true.1 hname
  obtain ⟨htable, hcolumn⟩ := Bool.and_eq_true_iff.1 hhas
  obtain ⟨_, -, -, hknown⟩ := hall.exists_of_mem_left hmem
  have hfound := hknown _ hcolumn
  rwa [eq_of_beq htable] at hfound

/-- A table whose sources are there is staged in both states, if no further column of a cube that it names is
there in the second one. -/
theorem exists_stage {d : Draft} (ht : t ∈ setup.catalog.tables)
    (himage : t.Image ρ setup.catalog setup'.catalog t')
    (hcubes : setup.catalog.AgreeOn setup'.catalog (setup.catalog.cubeColumnsOf t))
    (hsources : ∀ u, setup.catalog.Reads t u → ∃ x ∈ before, x.table = u)
    (hd : stage setup s.store (s.opening t) t = .ok d) :
    ∃ d', stage setup' s'.store (s'.opening t') t' = .ok d' ∧ d.Image ρ d' := by
  have hopening := h.opening hρ himage
  have hmoves := h.next_opening hρ
  have hp : (s.opening t).Of t := ⟨rfl, rfl⟩
  have hp' : (s'.opening t').Of t' := ⟨rfl, rfl⟩
  have hcreation := himage.creation
  unfold stage at hd ⊢
  cases hc : t.creation with
  | none =>
    rw [hc] at hcreation hd
    have hc' := hcreation.eq_none
    rw [hc']
    exact Populate.exists_image hsetup himage hp hp' hopening hmoves hc hc' hd
  | some creation =>
    rw [hc] at hcreation hd
    obtain ⟨creation', hc', hcreation⟩ := hcreation.of_some
    obtain ⟨sources, hbound, hd⟩ := Except.bind_eq_ok_iff.1 hd
    have hnames : ∀ name ∈ creation.approach.sourceTables, ∃ x ∈ before, x.table.name = name := by
      intro name hname
      obtain ⟨u, hu, rfl, hmem⟩ := (hsetup.catalog.wellFormed.creations t ht creation hc).named name hname
      obtain ⟨x, hx, rfl⟩ := hsources u ⟨hu, by rwa [Table.sources, hc]⟩
      exact ⟨x, hx, rfl⟩
    obtain ⟨sources', hbound', hrenamed, hknown⟩ := bindSources hsetup hρ h hs hs' hnames hbound
    rw [hc']
    dsimp only
    rw [hcreation.approach, hbound']
    exact Derive.exists_image hsetup himage hp hp' hopening hmoves hc hc' hcreation hcubes hρ.renames
      (fun _ _ he => he.1) hrenamed hknown hd

omit hsetup hρ hs hs' in
/-- The states after a table and its image were committed. -/
theorem recordSuccess {d d' : Draft} (himage : t.Image ρ setup.catalog setup'.catalog t') (hd : d.Image ρ d')
    (hp : d.extent.populated = s.opening t) :
    ((d.committed s).recordSuccess t d.extent.columns).Transferred ρ setup.catalog setup'.catalog n n'
      (before ++ [⟨t, d⟩]) ((d'.committed s').recordSuccess t' d'.extent.columns) (before' ++ [⟨t', d'⟩]) where
  commits := List.rel_append h.commits (.cons ⟨himage, hd⟩ .nil)
  above x hx := by
    rcases List.mem_append.1 hx with hx | hx
    · exact h.above x hx
    · obtain ⟨k, hnext, -⟩ := h.next
      have hlt : n < s.nextId := by omega
      rw [List.mem_singleton.1 hx, hp]
      exact hlt
  trail := h.trail
  next := by
    obtain ⟨k, hnext, hnext'⟩ := h.next
    have hend : ∀ (d : Draft) first, d.idsEnd first = first + d.extent.size := fun _ _ => Nat.add_assoc _ _ _
    refine ⟨k + d.extent.size, ?_, ?_⟩
    · change d.idsEnd s.nextId = _
      rw [hend, hnext, Nat.add_assoc]
    · change d'.idsEnd s'.nextId = _
      rw [hend, hnext', hd.extent.size, Nat.add_assoc]
  failures := h.failures

end State.Transferred

/-! ## Runs -/

/-- No further column of a cube is there that a table, or one that it is derived from, names. -/
def Catalog.AgreeBelow (c c' : Catalog) (t : Table) : Prop :=
  ∀ u, Relation.ReflTransGen c.Reads t u → c.AgreeOn c' (c.cubeColumnsOf u)

theorem Catalog.AgreeBelow.source {u : Table} (h : c.AgreeBelow c' t) (hreads : c.Reads t u) :
    c.AgreeBelow c' u :=
  fun _ hu => h _ (.head hreads hu)

/-- A run that succeeds takes the same steps where more is defined. -/
theorem Initializes.transfer {path es : List Entity} {cs : List Commit} {out : Outcome}
    (hsetup : setup.ExtendedBy setup') (hρ : Id.Transfers setup.catalog setup'.catalog n n' ρ)
    (hrun : Initializes setup path es s cs out) (hs : s.MadeOf setup before) (hs' : s'.MadeOf setup' before')
    (h : s.Transferred ρ setup.catalog setup'.catalog n n' before s' before')
    (hpath : ∀ e ∈ path, ∃ t ∈ setup.catalog.tables, t.entity = e)
    (hes : ∀ e ∈ es, ∃ t ∈ setup.catalog.tables, t.entity = e ∧ setup.catalog.AgreeBelow setup'.catalog t)
    (hok : out.1 = .ok ()) :
    ∃ cs' out', Initializes setup' (path.map (Entity.rename ρ)) (es.map (Entity.rename ρ)) s' cs' out' ∧
      out'.1 = .ok () ∧
      out.2.Transferred ρ setup.catalog setup'.catalog n n' (before ++ cs) out'.2 (before' ++ cs') := by
  have hwf := hsetup.catalog.wellFormed
  have hwf' := hsetup.catalog.wellFormed'
  have hfind : ∀ {t t' : Table}, t.Image ρ setup.catalog setup'.catalog t' →
      setup'.catalog.tableById? (t.entity.rename ρ).id = some t' := fun himage => by
    rw [← himage.entity]
    exact hwf'.tableById?_of_mem himage.known
  induction hrun generalizing before s' before' with
  | done => exact ⟨[], _, .done, rfl, by simpa using h⟩
  | dangling | failedBefore | cyclic | blocked | refused => cases hok
  | present known there next ih =>
    obtain ⟨t, ht, rfl, -⟩ := hes _ List.mem_cons_self
    cases (hwf.tableById?_of_mem ht).symm.trans known
    obtain ⟨t', himage⟩ := hρ.exists_image hsetup.catalog ht
    have hthere := (h.isInitialized_eq hsetup hρ hs hs' ht himage).trans there
    obtain ⟨cs', out', hrun', hok', h'⟩ :=
      ih hs.skip hs'.skip h.skip hpath (fun e he => hes e (List.mem_cons_of_mem _ he)) hok
    exact ⟨cs', out', .present (hfind himage) hthere hrun', hok', h'⟩
  | @built path rest e s s₁ s₂ t cs cs₂ d out tries sources staged settled next ihsources ihnext =>
    obtain ⟨u, ht, rfl, hcubes⟩ := hes _ List.mem_cons_self
    cases (hwf.tableById?_of_mem ht).symm.trans tries.known
    obtain ⟨t', himage⟩ := hρ.exists_image hsetup.catalog ht
    have htries : Tries setup' (path.map (Entity.rename ρ)) (t.entity.rename ρ) s' t' := by
      refine ⟨hfind himage, (h.isInitialized_eq hsetup hρ hs hs' ht himage).trans tries.new, ?_, fun hmem => ?_⟩
      · rw [State.failureOf?, h.failures]
        rfl
      · obtain ⟨e, he, heq⟩ := List.mem_map.1 hmem
        obtain ⟨u, hu, rfl⟩ := hpath e he
        rw [himage.entity] at heq
        exact tries.apart (hρ.rename_inj (Catalog.table_entity_mem hu) (Catalog.table_entity_mem ht) heq ▸ he)
    obtain ⟨cs', ⟨result, s₁'⟩, hsources, rfl, h₁⟩ := ihsources hs hs' h (path_snoc hpath ht) (fun e he => by
      obtain ⟨u, hreads, rfl⟩ := hwf.reads_of_mem_sources ht he
      exact ⟨u, hreads.1, rfl, hcubes.source hreads⟩) rfl
    rw [List.map_append, List.map_singleton, ← himage.entity, ← himage.sources] at hsources
    have hmade := (sources.madeOf_and_committed hwf hs).1
    have hmade' := (hsources.madeOf_and_committed hwf' hs').1
    obtain ⟨d', staged', hd⟩ := h₁.exists_stage hsetup hρ hmade hmade' ht himage (hcubes t .refl)
      (fun u => sources.exists_source hwf hs) staged
    obtain ⟨rfl, hbuilt⟩ := sources.state_of_built hwf tries hs staged settled
    have settled' := hsources.settle_of_staged hwf' htries hs' staged'
    obtain ⟨-, hbuilt'⟩ := hsources.state_of_built hwf' htries hs' staged' settled'
    have hp := (grounded_of_stage hwf ht rfl rfl staged).2
    obtain ⟨cs₂', out', hrun', hok', h₂⟩ := ihnext hbuilt hbuilt' (h₁.recordSuccess himage hd hp) hpath
      (fun e he => hes e (List.mem_cons_of_mem _ he)) hok
    exact ⟨cs' ++ ⟨t', d'⟩ :: cs₂', out', .built htries hsources staged' settled' hrun', hok',
      by simpa using h₂⟩

end Provenance
