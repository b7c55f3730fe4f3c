import Provenance.Proofs.Reachable

/-!
# Initialization is atomic and only adds

Whatever a reachable run is asked for, and whether this succeeds or not, all that was there stays as it is,
and what is added are complete commits of new tables, each as it was staged (`Run.Appends`). If a table
fails, nothing of it is there (`Run.Lacks`), and what was added belongs to tables that it is derived from.
Main statement: `Run.Reachable.atomic`.
-/

namespace Provenance

namespace Run

/-- What one run has beyond another are commits of different tables that were not there before. Each commit
holds what was staged for its table over all that was there by then. -/
structure Appends (r r' : Run) (cs : List Commit) : Prop where
  populated : r'.state.store.populated =
    r.state.store.populated ++ cs.map fun c => c.draft.extent.populated
  rows : r'.state.store.rows = r.state.store.rows ++ cs.flatMap fun c => c.draft.extent.rows
  values : r'.state.store.values = r.state.store.values ++ cs.flatMap fun c => c.draft.extent.values
  edges : r'.state.log.edges = r.state.log.edges ++ cs.flatMap fun c => c.draft.edges
  distinct : (cs.map Commit.table).Nodup
  new : ∀ c ∈ cs, c.table ∈ r.setup.catalog.tables ∧ r.state.store.populatedFor? c.table.id = none
  staged : ∀ before c after, cs = before ++ c :: after →
    c.draft.extent.populated.Of c.table ∧
      stage r.setup ⟨r.state.store.extents ++ before.map fun c => c.draft.extent⟩
        c.draft.extent.populated c.table = .ok c.draft

/-- There is nothing of a table in a run: it is not materialized, all rows belong to materialized tables and
all values to their columns, and all edges are owned by other definitions or by things that are there. -/
structure Lacks (r : Run) (t : Table) : Prop where
  populated : ∀ p ∈ r.state.store.populated, p.table ≠ t.id
  rows : ∀ row ∈ r.state.store.rows, ∃ p ∈ r.state.store.populated, row.populated = p.id
  values : ∀ v ∈ r.state.store.values, ∀ col ∈ r.setup.catalog.columnsOf t.id, v.column ≠ col.id
  definitions : ∀ edge ∈ r.state.log.edges, ¬r.setup.catalog.Defines t edge.owner
  owners : ∀ edge ∈ r.state.log.edges, r.state.store.Grounds r.setup.catalog edge.owner

variable {r r' : Run} {cs cs' : List Commit}

theorem appends_of_madeOf (hwf : r.setup.catalog.WellFormed) (h : r.state.MadeOf r.setup cs)
    (h' : r'.state.MadeOf r.setup (cs ++ cs')) : r.Appends r' cs' := by
  have hextents : r'.state.store.extents = r.state.store.extents ++ cs'.map fun c => c.draft.extent := by
    rw [h'.store, h.store]
    exact List.map_append
  have hnodup := h'.history.nodup_tables
  rw [List.map_append, List.nodup_append] at hnodup
  refine ⟨?_, ?_, ?_, ?_, hnodup.2.1, fun c hc => ⟨?_, ?_⟩, ?_⟩
  · unfold Store.populated
    rw [hextents, List.map_append, List.map_map]
    rfl
  · unfold Store.rows
    rw [hextents, List.flatMap_append, List.flatMap_map]
  · unfold Store.values
    rw [hextents, List.flatMap_append, List.flatMap_map]
  · rw [h'.log, h.log, List.flatMap_append]
  · exact h'.history.known (List.mem_append_right _ hc)
  · cases hfor : r.state.store.populatedFor? c.table.id with
    | none => rfl
    | some p =>
      obtain ⟨hp, htable⟩ := Store.of_last?_eq_some hfor
      obtain ⟨x, hx, rfl⟩ := List.mem_map.1 hp
      obtain ⟨c₀, hc₀, rfl⟩ := h.exists_of_mem_extents hx
      have hid : c₀.table.id = c.table.id :=
        (h.history.populates hc₀).table.symm.trans (of_decide_eq_true htable)
      have heq := hwf.table_eq (h.history.known hc₀) (h'.history.known (List.mem_append_right _ hc)) hid
      exact absurd heq
        (hnodup.2.2 _ (List.mem_map_of_mem hc₀) _ (List.mem_map_of_mem hc))
  · rintro before c after rfl
    rw [← List.append_assoc] at h'
    have follows := h'.history.follows_of_append
    refine ⟨follows.populates, ?_⟩
    have hstaged := follows.staged
    rw [h.store]
    unfold Commit.storeOf at hstaged ⊢
    rwa [List.map_append] at hstaged

/-- A value stands in a column of the table that it was committed with. -/
theorem exists_commit_of_value {v : Value} (hwf : r.setup.catalog.WellFormed)
    (h : r.state.MadeOf r.setup cs) (hv : v ∈ r.state.store.values) :
    ∃ c ∈ cs, ∃ col ∈ r.setup.catalog.columnsOf c.table.id, col.id = v.column := by
  obtain ⟨x, hx, hv⟩ := List.mem_flatMap.1 hv
  obtain ⟨c, hc, rfl⟩ := h.exists_of_mem_extents hx
  obtain ⟨_, hg⟩ := h.history.grounded hwf hc
  obtain ⟨rows, hx⟩ := hg.filled
  rw [hx] at hv
  obtain ⟨n, -, cell, -, hcolumn, rfl⟩ := Extent.mem_values_filled hv
  exact ⟨c, hc, hg.columns _ hcolumn⟩

/-- What owns an edge is a definition of a committed table, or a row or a value that is there. -/
theorem grounds_of_owns {c : Commit} {e : Entity} (h : r.state.MadeOf r.setup cs) (hc : c ∈ cs)
    (howns : c.draft.Owns r.setup.catalog c.table e) : r.state.store.Grounds r.setup.catalog e := by
  have hextent := h.mem_extents hc
  rcases howns with hdefines | howns
  · exact .inl (hdefines.mem_entities (h.history.known hc))
  rcases List.mem_append.1 howns with howns | howns
  · obtain ⟨row, hrow, heq⟩ := List.mem_map.1 howns
    exact .inr (.inl ⟨row, List.mem_flatMap.2 ⟨_, hextent, hrow⟩, heq⟩)
  · obtain ⟨v, hv, heq⟩ := List.mem_map.1 howns
    exact .inr (.inr ⟨v, List.mem_flatMap.2 ⟨_, hextent, hv⟩, heq⟩)

/-- A table that was not committed left nothing. -/
theorem lacks_of_madeOf {t : Table} (hwf : r.setup.catalog.WellFormed)
    (h : r.state.MadeOf r.setup cs) (ht : t ∈ r.setup.catalog.tables) (hnew : ∀ c ∈ cs, c.table ≠ t) :
    r.Lacks t := by
  refine ⟨fun p hp htable => ?_, fun row hrow => ?_, fun v hv col hcol heq => ?_,
    fun edge hedge hdef => ?_, fun edge hedge => ?_⟩
  · obtain ⟨x, hx, rfl⟩ := List.mem_map.1 hp
    obtain ⟨c, hc, rfl⟩ := h.exists_of_mem_extents hx
    rw [(h.history.populates hc).table] at htable
    exact hnew c hc (hwf.table_eq (h.history.known hc) ht htable)
  · obtain ⟨x, hx, hrow⟩ := List.mem_flatMap.1 hrow
    obtain ⟨rows, heq⟩ := (h.sound hwf).filled x hx
    rw [heq] at hrow
    obtain ⟨n, -, rfl⟩ := Extent.mem_rows_filled hrow
    exact ⟨x.populated, List.mem_map_of_mem hx, rfl⟩
  · obtain ⟨c, hc, col', hcol', hid⟩ := exists_commit_of_value hwf h hv
    obtain ⟨hcol, htable⟩ := Catalog.mem_columnsOf.1 hcol
    obtain ⟨hcol', htable'⟩ := Catalog.mem_columnsOf.1 hcol'
    have hcols := List.inj_on_of_nodup_map hwf.nodup_columnIds hcol' hcol (hid.trans heq)
    rw [hcols, htable] at htable'
    exact hnew c hc (hwf.table_eq (h.history.known hc) ht htable'.symm)
  · obtain ⟨c, hc, hedge⟩ := h.mem_edges_iff.1 hedge
    obtain ⟨_, hg⟩ := h.history.grounded hwf hc
    rcases hg.owners edge hedge with howns | howns
    · exact hnew c hc (hwf.eq_of_defines (h.history.known hc) ht howns hdef rfl)
    · exact absurd (h.history.id_lt_of_mem_ids (h.history.sound hwf) hc (hdef.mem_entities ht)
        (Extent.id_mem_ids howns)) (Nat.lt_irrefl _)
  · obtain ⟨c, hc, hedge⟩ := h.mem_edges_iff.1 hedge
    obtain ⟨_, hg⟩ := h.history.grounded hwf hc
    exact grounds_of_owns h hc (hg.owners edge hedge)

/-- Every call leaves what is there as it is and adds complete commits. A table that fails leaves nothing,
and what was added then are tables that it is derived from. No commit fails after it moved anything. -/
theorem Reachable.atomic (h : r.Reachable) :
    (∀ call, ∃ cs, r.Appends (r.after call) cs) ∧
      (∀ name t e, r.setup.catalog.table name = .ok t → (r.initTable name).1 = .error e →
        (r.initTable name).2.Lacks t ∧ ∃ cs, r.Appends (r.initTable name).2 cs ∧
          ∀ c ∈ cs, Relation.TransGen r.setup.catalog.Reads t c.table ∧
            (r.initTable name).2.state.isInitialized c.table.id = true) ∧
      ∀ (setup : Setup) (s : State) (d : Draft) (e : Error),
        (d.commit setup s).1 = .error e → (d.commit setup s).2 = s := by
  obtain ⟨hwf, cs, hmade⟩ := h.exists_madeOf
  refine ⟨fun call => ?_, fun name t e htable herror => ?_, fun _ _ _ _ => Draft.commit_of_error⟩
  · obtain ⟨cs', out, hout, hsame, -⟩ := exists_initializes hwf hmade call
    exact ⟨cs', appends_of_madeOf hwf hmade ((hout.madeOf_and_committed hwf hmade).1.same hsame)⟩
  · obtain ⟨ht, -⟩ := Catalog.mem_of_table htable
    obtain ⟨cs', out, hout, hresult, hsetup, hmade'⟩ := initializes_of_table hwf hmade htable
    have herror : out.1 = .error e := hresult.symm.trans herror
    have hknown : r.setup.catalog.tableById? t.entity.id = some t := hwf.tableById?_of_mem ht
    have hnew := hout.new_of_error hwf hmade rfl herror hknown
    refine ⟨lacks_of_madeOf (hsetup ▸ hwf) (hsetup ▸ hmade') (hsetup ▸ ht) hnew, cs',
      appends_of_madeOf hwf hmade hmade', fun c hc => ⟨?_, ?_⟩⟩
    · obtain ⟨e', he', t', hknown', hreads⟩ := hout.reads hwf hc
      rw [List.mem_singleton.1 he', hknown] at hknown'
      cases hknown'
      rcases hreads.cases_head with heq | ⟨u, hread, hreads⟩
      · exact absurd heq.symm (hnew c (List.mem_append_right _ hc))
      · exact Relation.TransGen.head' hread hreads
    · have hcommitted := List.mem_append_right cs hc
      exact (hmade'.isInitialized_iff hwf (hmade'.history.known hcommitted)).2 ⟨c, hcommitted, rfl⟩

end Run

namespace Sample

/-- A table that is derived from itself fails and leaves nothing. -/
theorem lacks_loop : ∃ e, (run.initTable "loop").1 = .error e ∧
    (run.initTable "loop").2.Lacks ⟨⟨3⟩, "loop", some loop⟩ ∧
      ∃ cs, run.Appends (run.after (.materialize "total")) cs := by
  have hfind : run.setup.catalog.table "loop" = .ok ⟨⟨3⟩, "loop", some loop⟩ := rfl
  have herror : (run.initTable "loop").1 =
      .error (.cyclic [⟨.derivedTable, ⟨3⟩⟩, ⟨.derivedTable, ⟨3⟩⟩]) := rfl
  obtain ⟨happends, hlacks, -⟩ := Run.Reachable.atomic reachable_run
  exact ⟨_, herror, (hlacks _ _ _ hfind herror).1, happends (.materialize "total")⟩

end Sample

end Provenance
