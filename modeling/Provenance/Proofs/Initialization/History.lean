import Provenance.Proofs.Initialization.Committing
import Provenance.Proofs.Initialization.Steps
import Provenance.Proofs.Rows.Filled

/-!
# The history of a trail

What is in the store and in the log of a trail is a list of commits, each of a draft that was staged over
the commits before it, when all sources of its table were among them (`History`). The commits fill a sound
store, and whatever owns an edge tells which of them the edge belongs to (`History.eq_of_owns`).
-/

namespace Provenance

/-- The store that commits fill. -/
def Commit.storeOf (cs : List Commit) : Store := ⟨cs.map fun c => c.draft.extent⟩

theorem Commit.extent_mem {cs : List Commit} {c : Commit} (hc : c ∈ cs) :
    c.draft.extent ∈ (storeOf cs).extents :=
  List.mem_map_of_mem hc

/-- A commit may follow others: its table is new and its sources are there, its identities come after all
others, and its draft was staged over what is there. -/
structure Commit.Follows (setup : Setup) (cs : List Commit) (c : Commit) : Prop where
  known : c.table ∈ setup.catalog.tables
  new : ∀ c' ∈ cs, c'.table ≠ c.table
  sources : ∀ e ∈ c.table.sources, ∃ c' ∈ cs, c'.table.entity = e
  above : ∀ e ∈ setup.catalog.entities, e.id.number < c.draft.extent.populated.id.number
  after : ∀ c' ∈ cs, c'.draft.extent.idsEnd ≤ c.draft.extent.populated.id.number
  populates : c.draft.extent.populated.Of c.table
  staged : stage setup (Commit.storeOf cs) c.draft.extent.populated c.table = .ok c.draft

/-- A supplied table was filled from what the records hold. -/
structure Commit.SuppliedBy (setup : Setup) (c : Commit) (rows : List (List Scalar)) : Prop where
  supplied : c.table.creation = none
  fills : List.Forall₂
    (Populate.Fills setup.settings.strictColumns c.table (setup.catalog.columnsOf c.table.id))
    (setup.data.records c.table.name) rows
  draft : c.draft =
    ⟨.filled c.draft.extent.populated ((setup.catalog.columnsOf c.table.id).map Column.id) rows, []⟩

/-- A derived table was computed from its sources, as they are after some commits: its planned columns in the
frames that its approach makes. -/
structure Commit.ComputedFrom (setup : Setup) (cs : List Commit) (c : Commit) (creation : Creation)
    (sources : List SourceTable) (plan : List ColumnPlan) (frames : List RowFrame)
    (rows : List ComputedRow) : Prop where
  derived : c.table.creation = some creation
  bound : creation.approach.sourceTables.mapM (bindSource setup.catalog (storeOf cs)) = .ok sources
  planned : Plan.columns setup.catalog setup.settings.policy sources c.table.name
    (setup.catalog.columnsOf c.table.id) = .ok plan
  made : creation.approach.createRows setup.catalog setup.functions sources = .ok frames
  fills : List.Forall₂ (Derive.Fills setup.catalog setup.functions plan) frames rows
  draft : c.draft = .derived c.draft.extent.populated (plan.map fun column => column.column.id)
    (if setup.settings.recordDefinitions then Derive.definitionEdges creation plan else []) rows

theorem Commit.ComputedFrom.extent_eq {setup : Setup} {cs : List Commit} {c : Commit} {creation : Creation}
    {sources : List SourceTable} {plan : List ColumnPlan} {frames : List RowFrame} {rows : List ComputedRow}
    (h : c.ComputedFrom setup cs creation sources plan frames rows) :
    c.draft.extent = .filled c.draft.extent.populated (plan.map fun column => column.column.id)
      (rows.map fun row => row.cells.map Prod.fst) :=
  congrArg Draft.extent h.draft

/-- What is staged for a table is supplied, or computed from its sources. -/
theorem Commit.Follows.cases_of_staged {setup : Setup} {cs : List Commit} {c : Commit}
    (follows : c.Follows setup cs) :
    (∃ rows, c.SuppliedBy setup rows) ∨
      ∃ creation sources plan frames rows, c.ComputedFrom setup cs creation sources plan frames rows := by
  have hstaged := follows.staged
  unfold stage at hstaged
  cases hcreation : c.table.creation with
  | none =>
    rw [hcreation] at hstaged
    obtain ⟨rows, hfills, hd⟩ := (Populate.draft_eq_ok_iff (follows.populates.database hcreation)
      follows.populates.table).1 hstaged
    exact .inl ⟨rows, hcreation, hfills, hd⟩
  | some creation =>
    rw [hcreation] at hstaged
    obtain ⟨sources, hsources, hdraft⟩ := Except.bind_eq_ok_iff.1 hstaged
    obtain ⟨-, plan, hplan, frames, hframes, rows, hfills, hd⟩ := (Derive.draft_eq_ok_iff
      (follows.populates.derived hcreation) follows.populates.table).1 hdraft
    exact .inr ⟨creation, sources, plan, frames, rows, hcreation, hsources, hplan, hframes, hfills, hd⟩

/-- A commit filled its table with rows of payloads, under the names of its columns. -/
structure Commit.FilledWith (setup : Setup) (c : Commit) (names : List String) (rows : List (List Scalar)) :
    Prop where
  extent : c.draft.extent = .filled c.draft.extent.populated c.draft.extent.columns rows
  columns : c.draft.extent.columns.mapM (SourceTable.columnName setup.catalog) = .ok names
  width : ∀ row ∈ rows, row.length = names.length

theorem Commit.FilledWith.names_of_mem {setup : Setup} {c : Commit} {names : List String}
    {rows : List (List Scalar)} (h : c.FilledWith setup names rows) {p : Populated} {name : String}
    {r : SourceRow} (hr : r ∈ (SourceTable.filled p name names rows).rows) : r.cells.map Prod.fst = names := by
  obtain ⟨row, hrow, rfl⟩ := List.mem_map.1 hr
  exact SourceRow.names_filled (h.width _ (List.fst_mem_of_mem_zipIdx hrow))

theorem Commit.SuppliedBy.filledWith {setup : Setup} {c : Commit} {rows : List (List Scalar)}
    (hwf : setup.catalog.WellFormed) (h : c.SuppliedBy setup rows) :
    c.FilledWith setup ((setup.catalog.columnsOf c.table.id).map Column.name) rows := by
  have hextent : c.draft.extent = .filled c.draft.extent.populated
      ((setup.catalog.columnsOf c.table.id).map Column.id) rows := congrArg Draft.extent h.draft
  have hcolumns : c.draft.extent.columns = (setup.catalog.columnsOf c.table.id).map Column.id :=
    congrArg Extent.columns hextent
  refine ⟨by rwa [hcolumns], ?_, fun row hrow => ?_⟩
  · rw [hcolumns]
    exact mapM_columnName hwf fun col hcol => (Catalog.mem_columnsOf.1 hcol).1
  · obtain ⟨_, -, -, hholds⟩ := h.fills.exists_of_mem_right hrow
    rw [List.length_map]
    exact hholds.length_eq.symm

theorem Commit.ComputedFrom.filledWith {setup : Setup} {cs : List Commit} {c : Commit} {creation : Creation}
    {sources : List SourceTable} {plan : List ColumnPlan} {frames : List RowFrame} {rows : List ComputedRow}
    (hwf : setup.catalog.WellFormed) (h : c.ComputedFrom setup cs creation sources plan frames rows) :
    c.FilledWith setup ((plan.map ColumnPlan.column).map Column.name)
      (rows.map fun row => row.cells.map Prod.fst) := by
  have hcolumns : c.draft.extent.columns = (plan.map ColumnPlan.column).map Column.id := by
    rw [List.map_map]
    exact congrArg Extent.columns h.extent_eq
  refine ⟨?_, ?_, fun row hrow => ?_⟩
  · rw [hcolumns, List.map_map]
    exact h.extent_eq
  · rw [hcolumns]
    exact mapM_columnName hwf fun col hcol =>
      (Catalog.mem_columnsOf.1 ((Plan.sublist_of_columns h.planned).subset hcol)).1
  · obtain ⟨computed, hcomputed, rfl⟩ := List.mem_map.1 hrow
    obtain ⟨_, -, -, hcells⟩ := h.fills.exists_of_mem_right hcomputed
    rw [List.length_map, List.length_map, List.length_map]
    exact hcells.length_eq.symm

theorem Commit.Follows.exists_filledWith {setup : Setup} {cs : List Commit} {c : Commit}
    (hwf : setup.catalog.WellFormed) (follows : c.Follows setup cs) :
    ∃ names rows, c.FilledWith setup names rows := by
  rcases follows.cases_of_staged with ⟨rows, h⟩ | ⟨creation, sources, plan, frames, rows, h⟩
  · exact ⟨_, _, h.filledWith hwf⟩
  · exact ⟨_, _, h.filledWith hwf⟩

/-- Commits, each of which may follow those before it. -/
inductive History (setup : Setup) : List Commit → Prop
  | nil : History setup []
  | snoc {cs : List Commit} {c : Commit} (h : History setup cs) (follows : c.Follows setup cs) :
      History setup (cs ++ [c])

theorem Commit.Follows.grounded {setup : Setup} {cs : List Commit} {c : Commit}
    (hwf : setup.catalog.WellFormed) (follows : c.Follows setup cs) :
    c.draft.Grounded setup.catalog (Commit.storeOf cs) c.table :=
  (grounded_of_stage hwf follows.known follows.populates.origin follows.populates.table
    follows.staged).1

/-- The source tables of a commit were committed before it. -/
theorem Commit.Follows.exists_named_source {setup : Setup} {cs : List Commit} {c : Commit}
    {creation : Creation} {name : String} (hwf : setup.catalog.WellFormed) (follows : c.Follows setup cs)
    (hcreation : c.table.creation = some creation) (hname : name ∈ creation.approach.sourceTables) :
    ∃ t ∈ setup.catalog.tables, t.name = name ∧ ∃ c' ∈ cs, c'.table.id = t.id := by
  obtain ⟨t, ht, htable, hmem⟩ := (hwf.creations _ follows.known _ hcreation).named name hname
  have hsource : t.entity ∈ c.table.sources := by
    unfold Table.sources
    rw [hcreation]
    exact hmem
  obtain ⟨c', hc', hentity⟩ := follows.sources _ hsource
  exact ⟨t, ht, htable, c', hc', congrArg Entity.id hentity⟩

namespace History

variable {setup : Setup} {cs before after : List Commit} {c c' : Commit}

theorem of_append (h : History setup (cs ++ after)) : History setup cs := by
  generalize hall : cs ++ after = all at h
  induction h generalizing after with
  | nil =>
    obtain ⟨rfl, -⟩ := List.append_eq_nil_iff.1 hall
    exact .nil
  | @snoc cs' c h follows ih =>
    rcases List.eq_nil_or_concat after with rfl | ⟨after, last, rfl⟩
    · rw [List.append_nil] at hall
      exact hall ▸ .snoc h follows
    · rw [List.concat_eq_append, ← List.append_assoc] at hall
      exact ih (List.append_inj_left' hall rfl)

theorem follows_of_append (h : History setup (before ++ c :: after)) : c.Follows setup before := by
  have h : History setup (before ++ [c]) := by
    rw [← List.singleton_append, ← List.append_assoc] at h
    exact h.of_append
  generalize hall : before ++ [c] = all at h
  cases h with
  | nil => exact absurd hall (by simp)
  | snoc h follows =>
    obtain ⟨rfl, hc⟩ := List.append_inj' hall rfl
    cases hc
    exact follows

theorem exists_follows (h : History setup cs) (hc : c ∈ cs) :
    ∃ before after, cs = before ++ c :: after ∧ c.Follows setup before := by
  obtain ⟨before, after, rfl⟩ := List.append_of_mem hc
  exact ⟨before, after, rfl, h.follows_of_append⟩

theorem known (h : History setup cs) (hc : c ∈ cs) : c.table ∈ setup.catalog.tables := by
  obtain ⟨_, _, -, follows⟩ := h.exists_follows hc
  exact follows.known

theorem populates (h : History setup cs) (hc : c ∈ cs) : c.draft.extent.populated.Of c.table := by
  obtain ⟨_, _, -, follows⟩ := h.exists_follows hc
  exact follows.populates

theorem above (h : History setup cs) (hc : c ∈ cs) {e : Entity} (he : e ∈ setup.catalog.entities) :
    e.id.number < c.draft.extent.populated.id.number := by
  obtain ⟨_, _, -, follows⟩ := h.exists_follows hc
  exact follows.above e he

theorem nodup_tables (h : History setup cs) : (cs.map Commit.table).Nodup := by
  induction h with
  | nil => exact .nil
  | snoc h follows ih =>
    rw [List.map_append]
    refine List.nodup_append.2 ⟨ih, List.nodup_singleton _, fun t ht t' ht' => ?_⟩
    obtain ⟨c', hc', rfl⟩ := List.mem_map.1 ht
    rw [List.mem_singleton.1 ht']
    exact follows.new c' hc'

theorem eq_of_table (h : History setup cs) (hc : c ∈ cs) (hc' : c' ∈ cs) (ht : c.table = c'.table) :
    c = c' :=
  List.inj_on_of_nodup_map h.nodup_tables hc hc' ht

/-- A definition and a thing that was committed do not share an identity. -/
theorem id_lt_of_mem_ids (h : History setup cs) (hs : (Commit.storeOf cs).Sound) (hc : c ∈ cs)
    {e : Entity} (he : e ∈ setup.catalog.entities) {id : Id} (hid : id ∈ c.draft.extent.ids) :
    e.id.number < id.number :=
  Nat.lt_of_lt_of_le (h.above hc he) (hs.range_of_mem_ids (Commit.extent_mem hc) hid).1

section

variable (hwf : setup.catalog.WellFormed)
include hwf

theorem grounded (h : History setup cs) (hc : c ∈ cs) :
    ∃ before, c.draft.Grounded setup.catalog (Commit.storeOf before) c.table := by
  obtain ⟨before, _, -, follows⟩ := h.exists_follows hc
  exact ⟨before, follows.grounded hwf⟩

/-- Commits fill a sound store. -/
theorem sound (h : History setup cs) : (Commit.storeOf cs).Sound := by
  induction h with
  | nil => exact Store.sound_empty
  | @snoc cs c h follows ih =>
    have hstore : Commit.storeOf (cs ++ [c]) = (Commit.storeOf cs).commit c.draft.extent := by
      simp [Commit.storeOf, Store.commit]
    rw [hstore]
    refine ih.commit (follows.grounded hwf).filled (fun y hy => ?_) fun y hy => ?_
    · obtain ⟨c', hc', rfl⟩ := List.mem_map.1 hy
      rw [(h.populates hc').table, follows.populates.table]
      exact fun hid => follows.new c' hc' (hwf.table_eq (h.known hc') follows.known hid)
    · obtain ⟨c', hc', rfl⟩ := List.mem_map.1 hy
      exact follows.after c' hc'

/-- What owns an edge tells which commit it belongs to. -/
theorem eq_of_owns (h : History setup cs) (hc : c ∈ cs) (hc' : c' ∈ cs) {e e' : Entity}
    (he : c.draft.Owns setup.catalog c.table e) (he' : c'.draft.Owns setup.catalog c'.table e')
    (hid : e.id = e'.id) : c = c' := by
  have hs := h.sound hwf
  rcases he with he | he
  · rcases he' with he' | he'
    · exact h.eq_of_table hc hc' (hwf.eq_of_defines (h.known hc) (h.known hc') he he' hid)
    · have hlt := h.id_lt_of_mem_ids hs hc' (he.mem_entities (h.known hc)) (Extent.id_mem_ids he')
      rw [hid] at hlt
      exact absurd hlt (Nat.lt_irrefl _)
  · rcases he' with he' | he'
    · have hlt := h.id_lt_of_mem_ids hs hc (he'.mem_entities (h.known hc')) (Extent.id_mem_ids he)
      rw [hid] at hlt
      exact absurd hlt (Nat.lt_irrefl _)
    · have heq := hs.eq_of_mem_ids (Commit.extent_mem hc) (Commit.extent_mem hc')
        (hid ▸ Extent.id_mem_ids he) (Extent.id_mem_ids he')
      have htable : c.table.id = c'.table.id := by
        rw [← (h.populates hc).table, ← (h.populates hc').table, heq]
      exact h.eq_of_table hc hc' (hwf.table_eq (h.known hc) (h.known hc') htable)

/-- An edge of one commit is not an edge of another one. -/
theorem eq_of_mem_edges (h : History setup cs) (hc : c ∈ cs) (hc' : c' ∈ cs) {edge : Edge}
    (hedge : edge ∈ c.draft.edges) (hedge' : edge ∈ c'.draft.edges) : c = c' := by
  obtain ⟨_, hg⟩ := h.grounded hwf hc
  obtain ⟨_, hg'⟩ := h.grounded hwf hc'
  exact h.eq_of_owns hwf hc hc' (hg.owners edge hedge) (hg'.owners edge hedge') rfl

/-- An edge belongs to the commit of what owns it. -/
theorem mem_edges_of_owns (h : History setup cs) (hc : c ∈ cs) {edge : Edge}
    (howns : c.draft.Owns setup.catalog c.table edge.owner)
    (hedge : edge ∈ cs.flatMap fun c => c.draft.edges) : edge ∈ c.draft.edges := by
  obtain ⟨c', hc', hedge⟩ := List.mem_flatMap.1 hedge
  obtain ⟨_, hg⟩ := h.grounded hwf hc'
  rwa [h.eq_of_owns hwf hc hc' howns (hg.owners edge hedge) rfl]

theorem exists_filledWith (h : History setup cs) (hc : c ∈ cs) :
    ∃ names rows, c.FilledWith setup names rows := by
  obtain ⟨_, _, -, follows⟩ := h.exists_follows hc
  exact follows.exists_filledWith hwf

/-- What is committed for a table is bound under the names of its columns, with the payloads that it was
filled with. -/
theorem bindSource_eq (h : History setup cs) (hc : c ∈ cs) {names : List String}
    {rows : List (List Scalar)} (hfilled : c.FilledWith setup names rows) :
    bindSource setup.catalog (Commit.storeOf cs) c.table.name =
      .ok (.filled c.draft.extent.populated c.table.name names rows) := by
  rw [Provenance.bindSource_eq hwf (h.sound hwf) (h.known hc) (Commit.extent_mem hc)
    (h.populates hc).table, hfilled.extent]
  exact Extent.bind_filled hfilled.columns _

/-- The source tables of a commit are bound alike in the store that it was staged over and in all later
ones. -/
theorem bindSources_eq (h : History setup (before ++ c :: after)) {creation : Creation}
    (hcreation : c.table.creation = some creation) :
    creation.approach.sourceTables.mapM
        (bindSource setup.catalog (Commit.storeOf (before ++ c :: after))) =
      creation.approach.sourceTables.mapM (bindSource setup.catalog (Commit.storeOf before)) := by
  refine List.mapM_congr fun name hname => ?_
  obtain ⟨t, ht, rfl, c', hc', hid⟩ := h.follows_of_append.exists_named_source hwf hcreation hname
  have hall : c' ∈ before ++ c :: after := List.mem_append_left _ hc'
  have htable : c'.draft.extent.populated.table = t.id := (h.populates hall).table.trans hid
  rw [Provenance.bindSource_eq hwf (h.sound hwf) ht (Commit.extent_mem hall) htable,
    Provenance.bindSource_eq hwf (h.of_append.sound hwf) ht (Commit.extent_mem hc') htable]

end

end History

end Provenance
