import Provenance.Proofs.Catalog.Moves
import Provenance.Proofs.Initialization.Lockstep
import Provenance.Proofs.Store.Image

/-!
# Initialization elsewhere

A run whose identities begin at another number does what the first run does, with its identities moved on
(`Id.Moves`, `State.Moved`). This holds as well if the second run does not record the edges between
definitions: then its log lacks these and nothing else (`Setup.Keeps`, `simulates_moved`).
-/

namespace Provenance

variable {ρ : Id → Id} {c : Catalog} {n n' : Nat} {keep : Edge.Kind → Bool}

/-! ## Settings with and without definitions -/

/-- A draft with the edges of some kinds only. -/
def Draft.keeping (keep : Edge.Kind → Bool) (d : Draft) : Draft :=
  { d with edges := d.edges.filter fun edge => keep edge.kind }

/-- What is staged with one setup is what is staged with another one over the same catalog, but for the
kinds of edges that are recorded. -/
structure Setup.Keeps (setup setup' : Setup) (keep : Edge.Kind → Bool) : Prop where
  catalog : setup'.catalog = setup.catalog
  stage : ∀ store p t, p.Of t → Except.Rel (fun d d' : Draft => d' = d.keeping keep)
    (Provenance.stage setup store p t) (Provenance.stage setup' store p t)

theorem Setup.keeps_all (setup : Setup) : setup.Keeps setup fun _ => true where
  catalog := rfl
  stage _ _ _ _ := Except.Rel.refl.imp fun d _ heq => by rw [Draft.keeping, List.filter_true, heq]

/-- An edge between definitions. -/
def Edge.Kind.isDefinitional : Edge.Kind → Bool
  | .functionColumn | .creationTable | .creationColumn => true
  | .rowSource | .valueSource => false

/-- The setup with the edges between definitions recorded, or not. -/
def Setup.recording (setup : Setup) (recordDefinitions : Bool) : Setup :=
  { setup with settings := { setup.settings with recordDefinitions } }

theorem Derive.isDefinitional_of_mem {creation : Creation} {plan : List ColumnPlan} {edge : Edge}
    (h : edge ∈ definitionEdges creation plan) : edge.kind.isDefinitional = true := by
  rcases cases_of_mem_definitionEdges h with ⟨-, ⟨hk, -⟩ | ⟨hk, -⟩⟩ | ⟨_, -, -, hk, -⟩
  all_goals
    rw [hk]
    rfl

theorem ComputedRow.isDefinitional_of_mem {row : ComputedRow} {p : Populated} {width k : Nat} {edge : Edge}
    (h : edge ∈ row.edges p width k) : edge.kind.isDefinitional = false := by
  unfold edges at h
  rcases List.mem_append.1 h with h | h
  · obtain ⟨_, -, rfl⟩ := List.mem_map.1 h
    rfl
  · obtain ⟨_, -, h⟩ := List.mem_flatMap.1 h
    obtain ⟨_, -, rfl⟩ := List.mem_map.1 h
    rfl

/-- A derived table without the edges between definitions. -/
theorem Draft.keeping_derived {p : Populated} {columns : List Id} {creation : Creation}
    {plan : List ColumnPlan} {rows : List ComputedRow} :
    (derived p columns (Derive.definitionEdges creation plan) rows).keeping (fun kind => !kind.isDefinitional) =
      derived p columns [] rows := by
  have hdefinitions : (Derive.definitionEdges creation plan).filter
      (fun edge => !edge.kind.isDefinitional) = [] :=
    List.filter_eq_nil_iff.2 fun edge hedge => by simp [Derive.isDefinitional_of_mem hedge]
  have hrows : (rows.zipIdx.flatMap fun row => row.1.edges p columns.length row.2).filter
      (fun edge => !edge.kind.isDefinitional) =
      rows.zipIdx.flatMap fun row => row.1.edges p columns.length row.2 := by
    refine List.filter_eq_self.2 fun edge hedge => ?_
    obtain ⟨row, -, hedge⟩ := List.mem_flatMap.1 hedge
    rw [ComputedRow.isDefinitional_of_mem hedge]
    rfl
  rw [keeping, derived, derived, List.filter_append, hdefinitions, hrows]

/-- Nothing but edges between definitions depends on whether these are recorded. -/
theorem Setup.keeps_recording (setup : Setup) :
    (setup.recording true).Keeps (setup.recording false) fun kind => !kind.isDefinitional where
  catalog := rfl
  stage store p t hp := by
    unfold Provenance.stage
    cases hc : t.creation with
    | none =>
      dsimp only
      rw [Populate.draft_eq (hp.database hc) hp.table, Populate.draft_eq (hp.database hc) hp.table]
      exact Except.Rel.refl.bind fun rows _ heq => .ok (heq ▸ rfl)
    | some creation =>
      dsimp only
      refine Except.Rel.refl.bind fun sources _ heq => ?_
      subst heq
      rw [Derive.draft_eq (hp.derived hc) hp.table, Derive.draft_eq (hp.derived hc) hp.table]
      refine Except.Rel.refl.bind fun _ _ _ => Except.Rel.refl.bind fun plan _ hplan => ?_
      subst hplan
      refine Except.Rel.refl.bind fun frames _ hframes => ?_
      subst hframes
      exact Except.Rel.refl.bind fun rows _ hrows => .ok (hrows ▸ Draft.keeping_derived.symm)

/-! ## States -/

/-- A commit with its identities renamed, and with the edges of some kinds only. -/
structure Commit.Image (ρ : Id → Id) (keep : Edge.Kind → Bool) (c c' : Commit) : Prop where
  table : c'.table = c.table
  extent : c.draft.extent.Image ρ c'.draft.extent
  edges : c'.draft.edges = (c.draft.edges.filter fun edge => keep edge.kind).map (Edge.rename ρ)

/-- A trail with its identity renamed. It may have been begun and ended at another time. -/
structure Trail.Image (ρ : Id → Id) (t t' : Trail) : Prop where
  id : t'.id = ρ t.id
  name : t'.name = t.name
  context : t'.context = t.context
  catalog : t'.catalog = t.catalog
  fingerprint : t'.fingerprint = t.fingerprint
  status : t'.status = t.status
  finished : t'.finishedAt.isSome = t.finishedAt.isSome

theorem Trail.Image.finish {t t' : Trail} (h : t.Image ρ t') (status : Trail.Status) (now now' : Timestamp) :
    (t.finish status now).Image ρ (t'.finish status now') := by
  unfold Trail.finish
  rw [h.status]
  split
  · exact h
  · exact { h with status := rfl, finished := rfl }

/-- Two states, of runs whose identities begin at `n` and at `n'`, are made of the same commits with their
identities renamed, and remember the same. -/
structure State.Moved (ρ : Id → Id) (n n' : Nat) (keep : Edge.Kind → Bool) (s : State) (before : List Commit)
    (s' : State) (before' : List Commit) : Prop where
  commits : List.Forall₂ (Commit.Image ρ keep) before before'
  above : ∀ c ∈ before, n < c.draft.extent.populated.id.number
  failures : s'.failures = s.failures
  skipped : s'.skipped = s.skipped
  trail : s.trail.Image ρ s'.trail
  next : ∃ k, s.nextId = n + 1 + k ∧ s'.nextId = n' + 1 + k

variable {setup setup' : Setup} {s s' : State} {before before' : List Commit} {t : Table}

namespace State.Moved

variable (h : s.Moved ρ n n' keep before s' before')
include h

theorem remember : Remember s before s' before' :=
  ⟨(h.commits.map_eq fun _ _ hc => hc.table.symm).symm, h.failures⟩

theorem store (hs : s.MadeOf setup before) (hs' : s'.MadeOf setup' before') : s.store.Image ρ s'.store := by
  rw [hs.store, hs'.store]
  exact List.rel_map (fun _ _ hc => hc.extent) h.commits

theorem edges (hs : s.MadeOf setup before) (hs' : s'.MadeOf setup' before') :
    s'.log.edges = (s.log.edges.filter fun edge => keep edge.kind).map (Edge.rename ρ) := by
  rw [hs.log, hs'.log]
  rw [List.filter_flatMap, List.map_flatMap]
  exact (h.commits.flatMap_eq fun _ _ hc => hc.edges.symm).symm

variable (hρ : Id.Moves setup.catalog n n' ρ)
include hρ

theorem next_opening (k : Nat) : ρ ⟨s.nextId + k⟩ = ⟨s'.nextId + k⟩ := by
  obtain ⟨i, hnext, hnext'⟩ := h.next
  exact Id.next_of_le (k := 1 + i) hρ.next (by omega) (by omega) k

theorem opening (ht : t ∈ setup.catalog.tables) : (s.opening t).Image ρ (s'.opening t) :=
  ⟨(h.next_opening hρ 0).symm, h.trail.id, (hρ.fixed_table ht).symm, rfl⟩

/-- Identities of a commit move on with that of its table. -/
theorem next_of_mem {c c' : Commit} (hc : c ∈ before) (himage : c.Image ρ keep c') (k : Nat) :
    ρ ⟨c.draft.extent.populated.id.number + k⟩ = ⟨c'.draft.extent.populated.id.number + k⟩ := by
  have habove := h.above c hc
  obtain ⟨i, hi⟩ := Nat.exists_eq_add_of_le (Nat.le_of_lt habove)
  have hid : c'.draft.extent.populated.id = ⟨n' + i⟩ := by
    rw [himage.extent.populated.id, ← hρ.next i, ← hi]
  exact Id.next_of_le hρ.next hi (congrArg Id.number hid) k

end State.Moved

/-- A committed table is filled from the same payloads as its image. -/
theorem Commit.Image.twin {c c' : Commit} (himage : c.Image ρ keep c') (hwf : setup.catalog.WellFormed)
    (hρ : Id.Moves setup.catalog n n' ρ) (hs : History setup before) (hc : c ∈ before)
    (hnext : ∀ k, ρ ⟨c.draft.extent.populated.id.number + k⟩ = ⟨c'.draft.extent.populated.id.number + k⟩) :
    c.draft.extent.Twin c'.draft.extent := by
  obtain ⟨_, hg⟩ := hs.grounded hwf hc
  obtain ⟨rows, hfilled⟩ := hg.filled
  have hcolumns : c.draft.extent.columns.map ρ = c.draft.extent.columns := hρ.map_columns fun id hid =>
    have ⟨col, hcol, heq⟩ := hg.columns id hid
    ⟨col, (Catalog.mem_columnsOf.1 hcol).1, heq⟩
  have htable : c'.draft.extent.populated.table = c.draft.extent.populated.table := by
    rw [himage.extent.populated.table, (hs.populates hc).table, hρ.fixed_table (hs.known hc)]
  have hfilled' := himage.extent.eq_filled hfilled hnext
  rw [hcolumns] at hfilled'
  exact ⟨htable.symm, himage.extent.populated.origin.symm, _, rows, hfilled, hfilled'⟩

/-- If a renaming fits what corresponds in two drafts, then their edges differ by it. -/
theorem Draft.Renamed.edges_eq {E : Entity → Entity → Prop} {d d' : Draft} (h : d.Renamed c E d')
    (hc : ∀ e ∈ c.entities, e.rename ρ = e) (hE : ∀ e e', E e e' → e' = e.rename ρ)
    (hpairs : ∀ e e', d.extent.Pairs d'.extent e e' → e' = e.rename ρ) :
    d'.edges = d.edges.map (Edge.rename ρ) := by
  have hedges : d.edges.map (Edge.rename ρ) = d'.edges.map id := by
    refine h.edges.map_eq fun edge edge' hedge => ?_
    rcases hedge with ⟨rfl, howner, htarget⟩ | ⟨hkind, howner, htarget⟩
    · rw [Edge.rename, hc _ howner, hc _ htarget]
      rfl
    · rw [Edge.rename, ← hpairs _ _ howner, ← hE _ _ htarget, hkind]
      rfl
  rw [hedges, List.map_id]

namespace State.Moved

variable (h : s.Moved ρ n n' keep before s' before') (hwf : setup.catalog.WellFormed)
  (hcatalog : setup'.catalog = setup.catalog) (hρ : Id.Moves setup.catalog n n' ρ) (hs : s.MadeOf setup before)
  (hs' : s'.MadeOf setup' before')
include h hwf hcatalog hρ hs hs'

/-- Entities that stand in the same place of twins differ by the renaming. -/
theorem rename_of_twins {e e' : Entity} (he : s.store.Twins s'.store e e') : e' = e.rename ρ := by
  obtain ⟨x, hx, x', hx', htwin, hpairs⟩ := he
  obtain ⟨c, hc, rfl⟩ := hs.exists_of_mem_extents hx
  obtain ⟨c', hc', himage⟩ := h.commits.exists_of_mem_left hc
  have hnext := h.next_of_mem hρ hc himage
  have htwin' := himage.twin hwf hρ hs.history hc hnext
  have heq : x' = c'.draft.extent := (hs'.sound (hcatalog ▸ hwf)).eq_of_table hx' (hs'.mem_extents hc')
    (htwin.table.symm.trans htwin'.table)
  subst heq
  exact Extent.rename_of_pairs hnext hpairs

/-- A table whose sources are there is staged alike in both states. -/
theorem stage_rel (hkeeps : setup.Keeps setup' keep) (ht : t ∈ setup.catalog.tables)
    (hsources : ∀ t', setup.catalog.Reads t t' → ∃ c ∈ before, c.table = t') :
    Except.Rel (fun d d' => Commit.Image ρ keep ⟨t, d⟩ ⟨t, d'⟩ ∧ d.extent.populated = s.opening t ∧
        d'.extent.size = d.extent.size)
      (stage setup s.store (s.opening t) t) (stage setup' s'.store (s'.opening t) t) := by
  have hrel : Except.Rel (Draft.Renamed setup.catalog (s.store.Twins s'.store))
      (stage setup s.store (s.opening t) t) (stage setup s'.store (s'.opening t) t) := by
    refine Provenance.stage_rel hwf (hs.sound hwf) (hs'.sound (hcatalog ▸ hwf)) ht ⟨rfl, rfl⟩ ⟨rfl, rfl⟩ ?_
    intro t' hreads
    obtain ⟨c, hc, rfl⟩ := hsources t' hreads
    obtain ⟨c', hc', himage⟩ := h.commits.exists_of_mem_left hc
    exact ⟨_, hs.mem_extents hc, _, hs'.mem_extents hc', (hs.history.populates hc).table,
      himage.twin hwf hρ hs.history hc (h.next_of_mem hρ hc himage)⟩
  have hkept := hkeeps.stage s'.store (s'.opening t) t ⟨rfl, rfl⟩
  generalize hd : stage setup s.store (s.opening t) t = x at hrel ⊢
  generalize hd' : stage setup s'.store (s'.opening t) t = y at hrel hkept
  generalize stage setup' s'.store (s'.opening t) t = z at hkept ⊢
  cases hrel with
  | error =>
    rw [hkept.eq_error]
    exact .error
  | @ok d d' hrenamed =>
    obtain ⟨_, rfl, rfl⟩ := hkept.of_ok
    obtain ⟨hg, hp⟩ := grounded_of_stage hwf ht rfl rfl hd
    have hp' := (grounded_of_stage hwf ht rfl rfl hd').2
    have htwin := hrenamed.twin
    have hnext : ∀ k, ρ ⟨d.extent.populated.id.number + k⟩ = ⟨d'.extent.populated.id.number + k⟩ := by
      rw [hp, hp']
      exact h.next_opening hρ
    obtain ⟨columns, rows, hx, hx'⟩ := htwin.filled
    have hcolumns : columns.map ρ = columns := hρ.map_columns fun id hid => by
      obtain ⟨col, hcol, heq⟩ := hg.columns id (by rw [hx]; exact hid)
      exact ⟨col, (Catalog.mem_columnsOf.1 hcol).1, heq⟩
    have himage := Extent.image_filled columns rows (h.opening hρ ht) (h.next_opening hρ)
    rw [hcolumns, ← hp, ← hp', ← hx, ← hx'] at himage
    have hedges := hrenamed.edges_eq (fun e he => hρ.rename_entity he)
      (fun e e' he => h.rename_of_twins hwf hcatalog hρ hs hs' he)
      fun e e' he => Extent.rename_of_pairs hnext he
    refine .ok ⟨⟨rfl, himage, ?_⟩, hp, htwin.size.symm⟩
    rw [Draft.keeping, hedges, List.filter_map]
    rfl

end State.Moved

namespace State.Moved

variable (h : s.Moved ρ n n' keep before s' before') (hwf : setup.catalog.WellFormed)
  (hρ : Id.Moves setup.catalog n n' ρ) (hs : s.MadeOf setup before)
include h hwf hρ hs

omit hρ in
theorem id_of_mem_store {x : Extent} (hx : x ∈ s.store.extents) {j : Id} (hj : j ∈ x.ids) : n < j.number := by
  obtain ⟨c, hc, rfl⟩ := hs.exists_of_mem_extents hx
  exact Nat.lt_of_lt_of_le (h.above c hc) ((hs.sound hwf).range_of_mem_ids hx hj).1

theorem apart : s.store.Apart ρ := fun _ hx j hj => hρ.apart j (.inr (h.id_of_mem_store hwf hs hx hj))

/-- What is there in one state is there in the other one. -/
theorem isInitialized (hs' : s'.MadeOf setup' before') (id : Id) :
    s'.isInitialized (ρ id) = s.isInitialized id := by
  have hmem : ∀ c ∈ before, ∀ c', c.Image ρ keep c' →
      ((ρ id ∈ c'.table.ids ∨ ρ id ∈ c'.draft.extent.columns) ↔
        (id ∈ c.table.ids ∨ id ∈ c.draft.extent.columns)) := by
    intro c hc c' himage
    have hknown := hs.history.known hc
    obtain ⟨_, hg⟩ := hs.history.grounded hwf hc
    have hcolumns : ∀ j ∈ c.draft.extent.columns, ∃ col ∈ setup.catalog.columns, col.id = j := fun j hj =>
      have ⟨col, hcol, heq⟩ := hg.columns j hj
      ⟨col, (Catalog.mem_columnsOf.1 hcol).1, heq⟩
    rw [himage.table, himage.extent.columns, hρ.map_columns hcolumns]
    refine or_congr (hρ.mem_iff fun j hj => ?_) (hρ.mem_iff fun j hj => ?_)
    · have hid : j ∈ setup.catalog.entities.map Entity.id := by
        rw [Catalog.map_id_entities]
        exact List.mem_append_left _ (List.mem_flatMap.2 ⟨_, hknown, hj⟩)
      exact List.mem_map.1 hid
    · obtain ⟨col, hcol, rfl⟩ := hcolumns j hj
      exact ⟨_, Catalog.column_entity_mem hcol, col.entity_id⟩
  rw [Bool.eq_iff_iff, hs.initialized, hs'.initialized]
  constructor
  · rintro ⟨c', hc', hid⟩
    obtain ⟨c, hc, himage⟩ := h.commits.exists_of_mem_right hc'
    exact ⟨c, hc, (hmem c hc c' himage).1 hid⟩
  · rintro ⟨c, hc, hid⟩
    obtain ⟨c', hc', himage⟩ := h.commits.exists_of_mem_left hc
    exact ⟨c', hc', (hmem c hc c' himage).2 hid⟩

end State.Moved

/-- Initialization keeps to a state whose identities are moved on, whether it records all edges or not. -/
theorem simulates_moved (hwf : setup.catalog.WellFormed) (hkeeps : setup.Keeps setup' keep)
    (hρ : Id.Moves setup.catalog n n' ρ) : Simulates setup setup' (State.Moved ρ n n' keep) where
  catalog := hkeeps.catalog
  remember h := h.remember
  skip h := { h with skipped := congrArg (· + 1) h.skipped }
  recordFailure t failure h := { h with failures := congrArg (· ++ _) h.failures }
  stage {s before s' before' t} hs hs' h ht hsources := by
    refine (h.stage_rel hwf hkeeps.catalog hρ hs hs' hkeeps ht hsources).imp ?_
    rintro d d' ⟨himage, hp, hsize⟩
    obtain ⟨k, hnext, hnext'⟩ := h.next
    refine { h with commits := ?_, above := ?_, next := ?_ }
    · exact List.rel_append h.commits (.cons himage .nil)
    · intro c hc
      rcases List.mem_append.1 hc with hc | hc
      · exact h.above c hc
      · have hlt : n < s.nextId := by omega
        rw [List.mem_singleton.1 hc, hp]
        exact hlt
    · have hend : ∀ (d : Draft) first, d.idsEnd first = first + d.extent.size := fun _ _ => Nat.add_assoc _ _ _
      refine ⟨k + d.extent.size, ?_, ?_⟩
      · change d.idsEnd s.nextId = _
        rw [hend, hnext, Nat.add_assoc]
      · change d'.idsEnd s'.nextId = _
        rw [hend, hnext', hsize, Nat.add_assoc]

end Provenance
