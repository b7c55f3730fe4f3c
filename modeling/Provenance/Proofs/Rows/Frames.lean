import Provenance.Proofs.Distinct
import Provenance.Proofs.Traverse
import Provenance.Rows.Create

/-!
# The frames that an approach makes

Every frame is over rows of the source tables, and the key of a group is that of its first member
(`Approach.framed_of_mem_createRows`).
-/

namespace Provenance

/-! ## Tables of a store -/

/-- A row of a table that is bound in a store is one of the materialization of the table, and its cells are the
values of that row. -/
theorem SourceTable.exists_of_bind {c : Catalog} {store : Store} {table : Table} {t : SourceTable}
    (h : bind c store table = .ok t) {r : SourceRow} (hr : r ∈ t.rows) :
    ∃ p, store.populatedFor? table.id = some p ∧ ∃ row ∈ store.rowsOf p.id, r.row = row.entity ∧
      ∀ x ∈ r.cells, ∃ v ∈ store.valuesOf row.id, x.2 = ⟨v.entity, v.payload⟩ := by
  unfold bind at h
  split at h
  · cases h
  · next p hp =>
    obtain ⟨columns, -, h⟩ := Except.bind_eq_ok_iff.1 h
    obtain ⟨rows, hrows, h⟩ := Except.bind_eq_ok_iff.1 h
    cases h
    obtain ⟨row, hrow, hbind⟩ := (List.mapM_eq_ok_iff.1 hrows).exists_of_mem_right hr
    obtain ⟨cells, hcells, hbind⟩ := Except.bind_eq_ok_iff.1 hbind
    cases hbind
    refine ⟨p, hp, row, hrow, rfl, fun x hx => ?_⟩
    obtain ⟨v, hv, hcell⟩ := (List.mapM_eq_ok_iff.1 hcells).exists_of_mem_right hx
    obtain ⟨name, -, hcell⟩ := Except.bind_eq_ok_iff.1 hcell
    cases hcell
    exact ⟨v, hv, rfl⟩

/-- The rows of a table that is bound in a store hold values of the store. -/
theorem SourceTable.exists_value_of_bind {c : Catalog} {store : Store} {table : Table}
    {t : SourceTable} (h : bind c store table = .ok t) {r : SourceRow} (hr : r ∈ t.rows)
    {x : String × Cell} (hx : x ∈ r.cells) : ∃ v ∈ store.values, x.2 = ⟨v.entity, v.payload⟩ := by
  obtain ⟨p, -, row, -, -, hcells⟩ := exists_of_bind h hr
  obtain ⟨v, hv, hcell⟩ := hcells x hx
  exact ⟨v, List.mem_of_mem_filter hv, hcell⟩

theorem Store.mem_rows_of_mem_rowsOf {store : Store} {id : Id} {row : Row} (h : row ∈ store.rowsOf id) :
    row ∈ store.rows := by
  obtain ⟨x, hx, hrow⟩ := List.mem_flatMap.1 h
  exact List.mem_flatMap.2 ⟨x, List.mem_of_mem_filter hx, hrow⟩

theorem SourceTable.exists_row_of_bind {c : Catalog} {store : Store} {table : Table}
    {t : SourceTable} (h : bind c store table = .ok t) {r : SourceRow} (hr : r ∈ t.rows) :
    ∃ row ∈ store.rows, r.row = row.entity := by
  obtain ⟨p, -, row, hrow, hentity, -⟩ := exists_of_bind h hr
  exact ⟨row, Store.mem_rows_of_mem_rowsOf hrow, hentity⟩

theorem SourceRow.mem_of_cell? {r : SourceRow} {column : String} {cell : Cell}
    (h : r.cell? column = some cell) : (column, cell) ∈ r.cells := by
  obtain ⟨before, after, hcells, -⟩ := List.lookup_eq_some_iff.1 h
  simp [hcells]

/-! ## Groups -/

namespace KeyIndex

variable {α : Type}

/-- Adding a thing changes one entry, or puts a new one at the end. -/
theorem mem_add {key : Key} {item : α} {index : KeyIndex α} {entry : KeyEntry α}
    (h : entry ∈ add key item index) :
    entry ∈ index ∨ entry = ⟨key, [item]⟩ ∨
      ∃ earlier ∈ index, entry = ⟨earlier.key, earlier.items ++ [item]⟩ := by
  induction index with
  | nil => exact .inr (.inl (List.mem_singleton.1 h))
  | cons first rest ih =>
    unfold add at h
    split at h
    · rcases List.mem_cons.1 h with rfl | h
      · exact .inr (.inr ⟨first, List.mem_cons_self, rfl⟩)
      · exact .inl (List.mem_cons_of_mem _ h)
    · rcases List.mem_cons.1 h with rfl | h
      · exact .inl List.mem_cons_self
      · rcases ih h with h | h | ⟨earlier, hmem, h⟩
        · exact .inl (List.mem_cons_of_mem _ h)
        · exact .inr (.inl h)
        · exact .inr (.inr ⟨earlier, List.mem_cons_of_mem _ hmem, h⟩)

/-- What stands under a key came with the key of its first member, or after that one. -/
def Headed (items : List (Key × α)) (entry : KeyEntry α) : Prop :=
  ∃ first rest, entry.items = first :: rest ∧ (entry.key, first) ∈ items ∧
    ∀ x ∈ rest, ∃ key, (key, x) ∈ items

theorem Headed.snoc {items : List (Key × α)} {entry : KeyEntry α} {key : Key} {item : α}
    (h : Headed items entry) (hmem : (key, item) ∈ items) :
    Headed items ⟨entry.key, entry.items ++ [item]⟩ := by
  obtain ⟨first, rest, hitems, hfirst, hrest⟩ := h
  refine ⟨first, rest ++ [item], by simp [hitems], hfirst, fun x hx => ?_⟩
  rcases List.mem_append.1 hx with hx | hx
  · exact hrest x hx
  · exact ⟨key, List.mem_singleton.1 hx ▸ hmem⟩

theorem headed_of_mem_ofList {items : List (Key × α)} {entry : KeyEntry α}
    (h : entry ∈ ofList items) : Headed items entry := by
  suffices H : ∀ (some : List (Key × α)) (index : KeyIndex α), (∀ i ∈ some, i ∈ items) →
      (∀ entry ∈ index, Headed items entry) →
      ∀ entry ∈ some.foldl (fun index item => add item.1 item.2 index) index, Headed items entry from
    H items [] (fun _ hi => hi) nofun entry h
  intro some
  induction some with
  | nil => exact fun index _ hindex => hindex
  | cons item some ih =>
    intro index hsome hindex
    refine ih _ (fun i hi => hsome i (List.mem_cons_of_mem _ hi)) fun entry he => ?_
    have hitem : (item.1, item.2) ∈ items := hsome item List.mem_cons_self
    rcases mem_add he with he | rfl | ⟨earlier, hmem, rfl⟩
    · exact hindex entry he
    · exact ⟨item.2, [], rfl, hitem, nofun⟩
    · exact (hindex earlier hmem).snoc hitem

end KeyIndex

/-! ## Bindings of source rows -/

/-- A binding takes its rows from the given tables. -/
def Binding.From (sources : List SourceTable) (b : Binding) : Prop :=
  ∀ slot ∈ b.slots, slot.1 ∈ sources ∧ ∀ r, slot.2 = some r → r ∈ slot.1.rows

theorem Binding.from_single {sources : List SourceTable} {t : SourceTable} {r : SourceRow}
    (ht : t ∈ sources) (hr : r ∈ t.rows) : (Binding.single t r).From sources := by
  intro slot hslot
  cases List.mem_singleton.1 hslot
  exact ⟨ht, fun r' h => Option.some.inj h ▸ hr⟩

theorem Binding.From.extend {sources : List SourceTable} {b : Binding} {t : SourceTable}
    {r : Option SourceRow} (h : b.From sources) (ht : t ∈ sources)
    (hr : ∀ r', r = some r' → r' ∈ t.rows) : (b.extend t r).From sources := by
  intro slot hslot
  rcases List.mem_append.1 hslot with hslot | hslot
  · exact h slot hslot
  · cases List.mem_singleton.1 hslot
    exact ⟨ht, hr⟩

/-- The key of a group is that of its first member. -/
def Scope.Keyed : Scope → Prop
  | .row _ => True
  | .group key columns members =>
    ∃ first rest, members = first :: rest ∧ columns.mapM first.payload = .ok key

/-- A frame over rows of the given tables. -/
structure RowFrame.Framed (sources : List SourceTable) (frame : RowFrame) : Prop where
  ofScope : frame = .ofScope frame.scope
  bound : ∀ b ∈ frame.scope.partition, b.From sources
  keyed : frame.scope.Keyed

theorem RowFrame.Framed.nodup_sourceRows {sources : List SourceTable} {frame : RowFrame}
    (h : frame.Framed sources) : frame.sourceRows.Nodup := by
  rw [h.ofScope]
  exact nodup_distinct _

theorem RowFrame.Framed.exists_of_mem_sourceRows {sources : List SourceTable} {frame : RowFrame}
    (h : frame.Framed sources) {e : Entity} (he : e ∈ frame.sourceRows) :
    ∃ t ∈ sources, ∃ r ∈ t.rows, r.row = e := by
  rw [h.ofScope] at he
  obtain ⟨b, hb, he⟩ := List.mem_flatMap.1 (mem_distinct.1 he)
  obtain ⟨⟨t, r?⟩, hslot, he⟩ := List.mem_filterMap.1 he
  obtain ⟨r, rfl, rfl⟩ := Option.map_eq_some_iff.1 he
  obtain ⟨ht, hr⟩ := h.bound b hb _ hslot
  exact ⟨t, ht, r, hr r rfl, rfl⟩

theorem RowFrame.framed_row {sources : List SourceTable} {b : Binding} (h : b.From sources) :
    (RowFrame.ofScope (.row b)).Framed sources where
  ofScope := rfl
  bound := fun _ hb => List.mem_singleton.1 hb ▸ h
  keyed := trivial

/-! ## Joins -/

theorem mem_of_sourceTable {sources : List SourceTable} {name : String} {t : SourceTable}
    (h : sourceTable sources name = .ok t) : t ∈ sources ∧ t.name = name := by
  unfold sourceTable at h
  split at h
  · next hfind =>
    cases h
    exact ⟨List.mem_of_find?_eq_some hfind, by simpa using List.find?_some hfind⟩
  · cases h

namespace JoinStep

variable {step : JoinStep} {sources : List SourceTable} {right : SourceTable}

theorem mem_rows_of_mem_index {entry : KeyEntry SourceRow} (h : entry ∈ step.index right) :
    ∀ r ∈ entry.items, r ∈ right.rows := by
  have hmem : ∀ key r, (key, r) ∈ right.rows.filterMap step.indexed? → r ∈ right.rows := by
    intro key r hr
    obtain ⟨r', hr', h⟩ := List.mem_filterMap.1 hr
    unfold indexed? at h
    obtain ⟨key', -, h⟩ := Option.bind_eq_some_iff.1 h
    split at h
    · cases h
    · cases h
      exact hr'
  obtain ⟨first, rest, hitems, hfirst, hrest⟩ := KeyIndex.headed_of_mem_ofList h
  intro r hr
  rw [hitems] at hr
  rcases List.mem_cons.1 hr with rfl | hr
  · exact hmem _ _ hfirst
  · obtain ⟨key, hkey⟩ := hrest r hr
    exact hmem _ _ hkey

theorem mem_of_mem_find {α : Type} {index : KeyIndex α} {key : Key} {x : α}
    (h : x ∈ index.find key) : ∃ entry ∈ index, x ∈ entry.items := by
  induction index with
  | nil => cases h
  | cons entry rest ih =>
    unfold KeyIndex.find at h
    split at h
    · exact ⟨entry, List.mem_cons_self, h⟩
    · obtain ⟨entry', hmem, hx⟩ := ih h
      exact ⟨entry', List.mem_cons_of_mem _ hmem, hx⟩

theorem mem_rows_of_mem_partners {key : Key} {r : SourceRow}
    (h : r ∈ partners (step.index right) key) : r ∈ right.rows := by
  unfold partners at h
  split at h
  · cases h
  · obtain ⟨entry, hentry, hr⟩ := mem_of_mem_find h
    exact mem_rows_of_mem_index hentry r hr

theorem from_of_mem_extend {b b' : Binding} {bs : List Binding} (hb : b.From sources)
    (hright : right ∈ sources) (h : step.extend right (step.index right) b = .ok bs)
    (hb' : b' ∈ bs) : b'.From sources := by
  obtain ⟨key, -, h⟩ := Except.bind_eq_ok_iff.1 h
  split at h
  · cases h
    cases hb'
  · cases h
    cases List.mem_singleton.1 hb'
    exact hb.extend hright nofun
  · cases h
    obtain ⟨r, hr, rfl⟩ := List.mem_map.1 hb'
    exact hb.extend hright fun r' hr' => Option.some.inj hr' ▸ mem_rows_of_mem_partners hr

end JoinStep

theorem from_of_mem_joinSteps {sources : List SourceTable} {steps : List JoinStep}
    {joined : List String} {bindings result : List Binding}
    (hb : ∀ b ∈ bindings, b.From sources)
    (h : joinSteps sources steps joined bindings = .ok result) :
    ∀ b ∈ result, b.From sources := by
  induction steps generalizing joined bindings with
  | nil => cases h; exact hb
  | cons step rest ih =>
    obtain ⟨_, -, h⟩ := Except.bind_eq_ok_iff.1 h
    obtain ⟨right, hright, h⟩ := Except.bind_eq_ok_iff.1 h
    obtain ⟨extended, hext, h⟩ := Except.bind_eq_ok_iff.1 h
    refine ih (fun b hmem => ?_) h
    obtain ⟨bs, hbs, hmem⟩ := List.mem_flatten.1 hmem
    obtain ⟨b₀, hb₀, hstep⟩ := (List.mapM_eq_ok_iff.1 hext).exists_of_mem_right hbs
    exact JoinStep.from_of_mem_extend (hb b₀ hb₀) (mem_of_sourceTable hright).1 hstep hmem

/-! ## Approaches -/

namespace Approach

variable {c : Catalog} {functions : Functions} {a : Approach} {sources : List SourceTable}
  {frames : List RowFrame} {frame : RowFrame}

/-- Rows are made only if the sources have the columns that decide about them. -/
theorem anyHasColumn_of_createRows (h : a.createRows c functions sources = .ok frames) :
    ∀ name ∈ a.sourceColumns, anyHasColumn sources name = true := by
  intro name hname
  obtain ⟨_, hcheck, -⟩ := Except.bind_eq_ok_iff.1 h
  unfold checkColumns at hcheck
  split at hcheck
  · cases hcheck
  · next hnone => simpa using List.find?_eq_none.1 hnone name hname

theorem framed_of_filterRow {predicate : Expr} {t : SourceTable} {r : SourceRow}
    (ht : t ∈ sources) (hr : r ∈ t.rows)
    (h : filterRow c functions predicate t r = .ok (some frame)) : frame.Framed sources := by
  obtain ⟨result, -, h⟩ := Except.bind_eq_ok_iff.1 h
  obtain ⟨keep, -, h⟩ := Except.bind_eq_ok_iff.1 h
  cases keep with
  | false => cases h
  | true =>
    cases h
    exact RowFrame.framed_row (Binding.from_single ht hr)

theorem framed_of_mem_groupRows {t : SourceTable} {keys : List ColumnName} {g : KeyEntry Binding}
    {groups : KeyIndex Binding} (ht : t ∈ sources) (h : groupRows t keys = .ok groups)
    (hg : g ∈ groups) : (RowFrame.ofScope (.group g.key keys g.items)).Framed sources := by
  obtain ⟨items, hitems, h⟩ := Except.bind_eq_ok_iff.1 h
  cases h
  have hitem : ∀ key b, (key, b) ∈ items →
      keys.mapM b.payload = .ok key ∧ b.From sources := by
    intro key b hmem
    obtain ⟨r, hr, hkeyed⟩ := (List.mapM_eq_ok_iff.1 hitems).exists_of_mem_right hmem
    obtain ⟨key', hkey, hkeyed⟩ := Except.bind_eq_ok_iff.1 hkeyed
    cases hkeyed
    exact ⟨hkey, Binding.from_single ht hr⟩
  obtain ⟨first, rest, hmembers, hfirst, hrest⟩ := KeyIndex.headed_of_mem_ofList hg
  refine ⟨rfl, fun b hb => ?_, ⟨first, rest, hmembers, (hitem _ _ hfirst).1⟩⟩
  change b ∈ g.items at hb
  rw [hmembers] at hb
  rcases List.mem_cons.1 hb with rfl | hb
  · exact (hitem _ _ hfirst).2
  · obtain ⟨key, hkey⟩ := hrest b hb
    exact (hitem _ _ hkey).2

/-- What an approach makes are frames over rows of its source tables. -/
theorem framed_of_mem_createRows (h : a.createRows c functions sources = .ok frames)
    (hf : frame ∈ frames) : frame.Framed sources := by
  obtain ⟨_, -, h⟩ := Except.bind_eq_ok_iff.1 h
  cases a with
  | filter source predicate =>
    obtain ⟨t, ht, h⟩ := Except.bind_eq_ok_iff.1 h
    obtain ⟨kept, hkept, h⟩ := Except.bind_eq_ok_iff.1 h
    cases h
    obtain ⟨frame?, hmem, rfl⟩ := List.mem_filterMap.1 hf
    obtain ⟨r, hr, hrow⟩ := (List.mapM_eq_ok_iff.1 hkept).exists_of_mem_right hmem
    exact framed_of_filterRow (mem_of_sourceTable ht).1 hr hrow
  | enrichment source =>
    obtain ⟨t, ht, h⟩ := Except.bind_eq_ok_iff.1 h
    cases h
    obtain ⟨r, hr, rfl⟩ := List.mem_map.1 hf
    exact RowFrame.framed_row (Binding.from_single (mem_of_sourceTable ht).1 hr)
  | join base steps =>
    obtain ⟨t, ht, h⟩ := Except.bind_eq_ok_iff.1 h
    obtain ⟨bindings, hb, h⟩ := Except.bind_eq_ok_iff.1 h
    cases h
    obtain ⟨b, hmem, rfl⟩ := List.mem_map.1 hf
    refine RowFrame.framed_row (from_of_mem_joinSteps (fun b₀ hb₀ => ?_) hb b hmem)
    obtain ⟨r, hr, rfl⟩ := List.mem_map.1 hb₀
    exact Binding.from_single (mem_of_sourceTable ht).1 hr
  | group source keys =>
    obtain ⟨t, ht, h⟩ := Except.bind_eq_ok_iff.1 h
    obtain ⟨groups, hgroups, h⟩ := Except.bind_eq_ok_iff.1 h
    cases h
    obtain ⟨g, hg, rfl⟩ := List.mem_map.1 hf
    exact framed_of_mem_groupRows (mem_of_sourceTable ht).1 hgroups hg

end Approach

end Provenance
