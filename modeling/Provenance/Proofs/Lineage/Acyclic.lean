import Provenance.Proofs.Catalog.Named
import Provenance.Proofs.Edge.Cycle
import Provenance.Proofs.Initialization.History

/-!
# The lineage is acyclic

What a table is made of and what its definition reads belong to tables that were committed before it, so an
edge of a commit leads either to a table or to what an earlier commit owns
(`Commit.Follows.cases_of_target`). Tables own no edges, and no edge ever leads to what a later commit owns.
So the edges of a history form no cycle (`History.acyclic`), also where definitions of the schema read each
other in a circle: none of these can be committed.
-/

namespace Provenance

/-- The edges of commits, one commit after the other. -/
def Commit.logOf (cs : List Commit) : EdgeLog := ⟨cs.flatMap fun c => c.draft.edges⟩

namespace Commit

variable {setup : Setup} {cs : List Commit} {c : Commit} {edge : Edge}

/-- What a thing in the store of some commits is committed with owns it. -/
private theorem exists_owns_row {r : Row} (hr : r ∈ (storeOf cs).rows) :
    ∃ c ∈ cs, c.draft.Owns setup.catalog c.table r.entity := by
  obtain ⟨x, hx, hr⟩ := List.mem_flatMap.1 hr
  obtain ⟨c, hc, rfl⟩ := List.mem_map.1 hx
  exact ⟨c, hc, .inr (List.mem_append_left _ (List.mem_map_of_mem hr))⟩

private theorem exists_owns_value {v : Value} (hv : v ∈ (storeOf cs).values) :
    ∃ c ∈ cs, c.draft.Owns setup.catalog c.table v.entity := by
  obtain ⟨x, hx, hv⟩ := List.mem_flatMap.1 hv
  obtain ⟨c, hc, rfl⟩ := List.mem_map.1 hx
  exact ⟨c, hc, .inr (List.mem_append_right _ (List.mem_map_of_mem hv))⟩

namespace Follows

variable (hwf : setup.catalog.WellFormed) (follows : c.Follows setup cs)
include hwf follows

/-- A column that the sources have belongs to a table that is committed. -/
private theorem exists_owns_column {creation : Creation} {sources : List SourceTable} {name : ColumnName}
    {col : Column} (hcreation : c.table.creation = some creation)
    (hsources : creation.approach.sourceTables.mapM (bindSource setup.catalog (storeOf cs)) = .ok sources)
    (hhas : anyHasColumn sources name = true) (hcol : setup.catalog.column? name = some col) :
    ∃ c' ∈ cs, c'.draft.Owns setup.catalog c'.table col.entity := by
  obtain ⟨t, ht, htable, hcol, -⟩ := Catalog.exists_of_column? hcol
  obtain ⟨t', ht', hname, c', hc', hid⟩ :=
    follows.exists_named_source hwf hcreation (mem_of_anyHasColumn hsources hhas)
  cases List.inj_on_of_nodup_map hwf.names ht' ht (hname.trans htable.symm)
  exact ⟨c', hc', .inl (.inr ⟨col, hid ▸ hcol, rfl⟩)⟩

/-- An edge of a commit leads to a table or to what an earlier commit owns. -/
theorem cases_of_target (hnamed : setup.catalog.Named) (hedge : edge ∈ c.draft.edges) :
    (∃ t ∈ setup.catalog.tables, t.entity = edge.target) ∨
      ∃ c' ∈ cs, c'.draft.Owns setup.catalog c'.table edge.target := by
  rcases follows.cases_of_staged with ⟨rows, hsupplied⟩ | ⟨creation, sources, plan, frames, rows, hcomputed⟩
  · rw [hsupplied.draft] at hedge
    cases hedge
  rw [hcomputed.draft] at hedge
  rcases List.mem_append.1 hedge with hedge | hedge
  -- What is recorded of the definition leads to source tables and to columns of these.
  · split at hedge
    · rcases Derive.cases_of_mem_definitionEdges hedge with
        ⟨-, ⟨-, he⟩ | ⟨-, he⟩⟩ | ⟨planned, hplanned, -, -, he⟩
      · obtain ⟨t, ht, hentity, -⟩ := (hwf.creations _ follows.known _ hcomputed.derived).tables _ he
        exact .inl ⟨t, ht, hentity⟩
      · obtain ⟨name, hname, col, hcol, hentity⟩ :=
          (hnamed.creations _ follows.known _ hcomputed.derived _).1 he
        exact .inr (hentity ▸ follows.exists_owns_column hwf hcomputed.derived hcomputed.bound
          (Approach.anyHasColumn_of_createRows hcomputed.made name hname) hcol)
      · obtain ⟨hmem, hcolumn⟩ := Plan.exists_of_mem_columns hcomputed.planned hplanned
        obtain ⟨e, hexpr⟩ := Option.isSome_iff_exists.1 (Plan.column_of_column hcolumn).2
        obtain ⟨name, hname, col, hcol, hentity⟩ := (hnamed.references _
          (Catalog.mem_columnsOf.1 hmem).1 e hexpr _).1 he
        exact .inr (hentity ▸ follows.exists_owns_column hwf hcomputed.derived hcomputed.bound
          (Plan.anyHasColumn_of_column hcolumn hexpr name hname) hcol)
    · cases hedge
  -- What is recorded of the rows leads to rows of the sources and to values that their cells hold.
  · obtain ⟨row, hrow, hedge⟩ := List.mem_flatMap.1 hedge
    obtain ⟨frame, hframe, hfill⟩ := hcomputed.fills.exists_of_mem_right (List.fst_mem_of_mem_zipIdx hrow)
    have hsourced := Derive.sourced_of_fills (exists_bind_of_bindSources hcomputed.bound)
      (Approach.framed_of_mem_createRows hcomputed.made hframe) hfill
    rcases ComputedRow.cases_of_mem_edges hedge with ⟨-, -, he⟩ | ⟨cell, hcell, -, -, he⟩
    · obtain ⟨r, hr, hentity⟩ := hsourced.sources _ he
      exact .inr (hentity ▸ exists_owns_row hr)
    · obtain ⟨v, hv, hentity⟩ := hsourced.cells _ (List.fst_mem_of_mem_zipIdx hcell) _ he
      exact .inr (hentity ▸ exists_owns_value hv)

end Follows

end Commit

/-- If all that is entered is left by arrows of another relation, then so is all that is reached from
there. -/
theorem transGen_of_entered {α : Type} {R R' : α → α → Prop} (h : ∀ a b c, R a b → R b c → R' b c)
    {a b c : α} (hab : R a b) (hbc : Relation.TransGen R b c) : Relation.TransGen R' b c := by
  induction hbc with
  | single hstep => exact .single (h _ _ _ hab hstep)
  | tail hbefore hstep ih =>
    obtain ⟨x, -, hx⟩ := Relation.TransGen.tail'_iff.1 hbefore
    exact ih.tail (h _ _ _ hx hstep)

namespace History

variable {setup : Setup} {cs : List Commit} {c : Commit} (hwf : setup.catalog.WellFormed)
include hwf

/-- A table owns no edge. -/
theorem table_id_ne (h : History setup cs) (hc : c ∈ cs) {t : Table} (ht : t ∈ setup.catalog.tables)
    {e : Entity} (he : c.draft.Owns setup.catalog c.table e) : t.entity.id ≠ e.id := by
  intro hid
  rcases he with he | he
  · have heq := hwf.entity_eq (Catalog.table_entity_mem ht) (he.mem_entities (h.known hc)) hid
    rcases he with ⟨creation, -, rfl⟩ | ⟨col, -, rfl⟩
    · rcases t.entity_kind with hk | hk <;> cases hk.symm.trans (congrArg Entity.kind heq)
    · rcases t.entity_kind with hk | hk <;> rcases col.entity_kind with hk' | hk' <;>
        cases hk.symm.trans ((congrArg Entity.kind heq).trans hk')
  · have hlt := h.id_lt_of_mem_ids (h.sound hwf) hc (Catalog.table_entity_mem ht) (Extent.id_mem_ids he)
    exact absurd (hid ▸ hlt) (Nat.lt_irrefl _)

/-- An edge of a history leads to a table or to what one of its commits owns. -/
theorem cases_of_target (hnamed : setup.catalog.Named) (h : History setup cs) {edge : Edge}
    (hedge : edge ∈ (Commit.logOf cs).edges) :
    (∃ t ∈ setup.catalog.tables, t.entity = edge.target) ∨
      ∃ c ∈ cs, c.draft.Owns setup.catalog c.table edge.target := by
  obtain ⟨c, hc, hmem⟩ := List.mem_flatMap.1 hedge
  obtain ⟨before, after, rfl, follows⟩ := h.exists_follows hc
  refine (follows.cases_of_target hwf hnamed hmem).imp_right ?_
  rintro ⟨c', hc', howns⟩
  exact ⟨c', List.mem_append_left _ hc', howns⟩

/-- The edges of a history form no cycle. -/
theorem acyclic (hnamed : setup.catalog.Named) (h : History setup cs) (id : Id) :
    ¬Relation.TransGen (Commit.logOf cs).Links id id := by
  induction h generalizing id with
  | nil =>
    intro hcycle
    obtain ⟨_, ⟨edge, hedge, -⟩, -⟩ := Relation.TransGen.head'_iff.1 hcycle
    cases hedge
  | @snoc cs c h follows ih =>
    have hlog : ∀ {edge}, edge ∈ (Commit.logOf (cs ++ [c])).edges →
        edge ∈ (Commit.logOf cs).edges ∨ edge ∈ c.draft.edges := fun {edge} hedge => by
      simpa [Commit.logOf] using hedge
    have hall : History setup (cs ++ [c]) := h.snoc follows
    have hlast : c ∈ cs ++ [c] := List.mem_append_right _ (List.mem_singleton_self _)
    -- What an edge leads to was there before the last commit, so no edge of this one leads on from there.
    have hentered : ∀ a b d, (Commit.logOf (cs ++ [c])).Links a b → (Commit.logOf (cs ++ [c])).Links b d →
        (Commit.logOf cs).Links b d := by
      rintro a b d ⟨edge, hedge, -, rfl⟩ ⟨edge', hedge', howner, rfl⟩
      rcases hlog hedge' with hedge' | hedge'
      · exact ⟨edge', hedge', howner, rfl⟩
      have howns := (follows.grounded hwf).owners edge' hedge'
      have htarget : (∃ t ∈ setup.catalog.tables, t.entity = edge.target) ∨
          ∃ c' ∈ cs, c'.draft.Owns setup.catalog c'.table edge.target := by
        rcases hlog hedge with hedge | hedge
        · exact h.cases_of_target hwf hnamed hedge
        · exact follows.cases_of_target hwf hnamed hedge
      rcases htarget with ⟨t, ht, hentity⟩ | ⟨c', hc', howns'⟩
      · exact absurd ((congrArg Entity.id hentity).trans howner.symm)
          (hall.table_id_ne hwf hlast ht howns)
      · have heq := hall.eq_of_owns hwf (List.mem_append_left _ hc') hlast howns' howns howner.symm
        exact absurd (congrArg Commit.table heq) (follows.new c' hc')
    intro hcycle
    obtain ⟨a, -, hlast⟩ := Relation.TransGen.tail'_iff.1 hcycle
    exact ih id (transGen_of_entered hentered hlast hcycle)

end History

end Provenance
