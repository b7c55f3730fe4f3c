import Provenance.Proofs.Evaluation.Agreement
import Provenance.Proofs.Rows.Bound
import Provenance.Proofs.Rows.Grouping
import Provenance.Proofs.Rows.Resolved
import Provenance.Proofs.Scalar.Order

/-!
# Joins as nested loops

A join looks for partners in an index. It makes the same bindings, in the same order, as loops over all rows
that compare every binding with every row of the next table (`nestedLoop`): what the index finds for a binding
are the rows that all keys pair with it (`JoinStep.partners_index`), whether its keys are missing, repeated or
not there at all. Main statement: `Approach.createRows_join_nestedLoop`.
-/

namespace Provenance

/-! ## Pairs -/

/-- Whether a key pairs a binding with a row: both hold something in their columns, and it is equal. An empty
place of the binding holds nothing. -/
def JoinKey.pairs (key : JoinKey) (b : Binding) (r : SourceRow) : Bool :=
  match b.payload key.left, r.cell? key.right with
  | .ok v, some cell => !v.isNull && !cell.payload.isNull && v.eqv cell.payload
  | _, _ => false

namespace JoinStep

/-- Whether all keys of a step pair a binding with a row. -/
def pairs (step : JoinStep) (b : Binding) (r : SourceRow) : Bool := step.on.all fun key => key.pairs b r

/-- A binding with each row of a table that it is paired with, or what becomes of it without one. -/
def nested (step : JoinStep) (right : SourceTable) (b : Binding) : List Binding :=
  match right.rows.filter (step.pairs b), step.kind with
  | [], .inner => []
  | [], .leftOuter => [b.extend right none]
  | rows, _ => rows.map fun r => b.extend right (some r)

end JoinStep

/-- The bindings of a join, made by one loop in the other: all rows of the base table, and for each of them
all rows of the table of each step in turn. -/
def nestedLoop (base : SourceTable) (steps : List (JoinStep × SourceTable)) : List Binding :=
  steps.foldl (fun bindings step => bindings.flatMap (step.1.nested step.2)) (base.rows.map (Binding.single base))

/-! ## Keys -/

/-- Payloads of one type are equal if comparing them says so. -/
theorem Scalar.eqv_iff_apply_eq {a b : Scalar} (ha : a.isNull = false) (htype : a.dataType? = b.dataType?) :
    a.eqv b = true ↔ BinaryOp.apply .eq a b = .ok (.bool true) := by
  obtain ⟨o, ho⟩ := exists_ordered htype ha
  have happly : BinaryOp.apply .eq a b = .ok (.bool (o == .eq)) := by
    change (a.compare b >>= _) = _
    rw [ho.compare_eq]
    rfl
  rw [← ordered_eq_iff htype ha, happly]
  constructor
  · intro heq
    rw [ho.eq heq]
    rfl
  · intro htrue
    cases o with
    | eq => exact ho
    | lt | gt => cases htrue

theorem JoinKey.pairs_iff {key : JoinKey} {b : Binding} {r : SourceRow} {v : Scalar}
    (hv : b.payload key.left = .ok v) :
    key.pairs b r = true ↔
      v.isNull = false ∧ ∃ cell, r.cell? key.right = some cell ∧ cell.payload.isNull = false ∧
        cell.payload.eqv v = true := by
  unfold pairs
  rw [hv]
  cases r.cell? key.right with
  | none => simp
  | some cell => simp [Scalar.eqv_comm v, and_assoc]

namespace JoinStep

variable {step : JoinStep} {b : Binding} {r : SourceRow} {key : Key} {right : SourceTable}

/-- A binding and a row are paired by all keys if the tuples that they hold are equal and nothing is missing. -/
theorem all_pairs_iff {on : List JoinKey}
    (hkey : List.Forall₂ (fun (k : JoinKey) v => b.payload k.left = .ok v) on key) :
    (on.all fun k => k.pairs b r) = true ↔
      key.hasNull = false ∧ ∃ rightKey : Key,
        on.mapM (fun k => (r.cell? k.right).map Cell.payload) = some rightKey ∧
          rightKey.hasNull = false ∧ rightKey.same key = true := by
  induction hkey with
  | nil => simp [Key.hasNull, Key.same]
  | @cons first v on key hfirst _ ih =>
    simp only [List.all_cons, Bool.and_eq_true, ih, JoinKey.pairs_iff hfirst, List.mapM_cons,
      Option.bind_eq_bind, Option.bind_eq_some_iff, Option.pure_def, Option.some.injEq, Option.map_eq_some_iff]
    constructor
    · rintro ⟨⟨hv, cell, hcell, hnull, heqv⟩, hkey, rightKey, hright, hfull, hsame⟩
      refine ⟨?_, cell.payload :: rightKey, ⟨_, ⟨cell, hcell, rfl⟩, rightKey, hright, rfl⟩, ?_, ?_⟩
      · simpa [Key.hasNull, hv] using hkey
      · simpa [Key.hasNull, hnull] using hfull
      · simpa [Key.same, heqv] using hsame
    · rintro ⟨hnull, _, ⟨_, ⟨cell, hcell, rfl⟩, rightKey, hright, rfl⟩, hfull, hsame⟩
      simp only [Key.hasNull, List.any_cons, Bool.or_eq_false_iff] at hnull hfull
      simp only [Key.same, Bool.and_eq_true] at hsame
      exact ⟨⟨hnull.1, cell, hcell, hfull.1, hsame.1⟩, hnull.2, rightKey, hright, hfull.2, hsame.2⟩

theorem snd_of_indexed? {i : Key × SourceRow} (h : step.indexed? r = some i) : i.2 = r := by
  obtain ⟨key, -, h⟩ := Option.bind_eq_some_iff.1 h
  split at h <;> cases h
  rfl

/-- A row is indexed under a key that is equal to that of a binding exactly if they are paired. -/
theorem any_indexed? (hkey : step.leftKey b = .ok key) (hfull : key.hasNull = false) :
    (step.indexed? r).any (fun i => i.1.same key) = step.pairs b r := by
  rw [Bool.eq_iff_iff, pairs, all_pairs_iff (List.mapM_eq_ok_iff.1 hkey)]
  unfold indexed? rightKey?
  cases step.on.mapM fun k => (r.cell? k.right).map Cell.payload with
  | none => simp
  | some rightKey =>
    cases hnull : Key.hasNull rightKey with
    | true => simp [hnull]
    | false => simp [hnull, hfull]

/-- The index finds for a binding the rows that it is paired with. -/
theorem partners_index (hkey : step.leftKey b = .ok key) :
    partners (step.index right) key = right.rows.filter (step.pairs b) := by
  unfold partners
  cases hnull : key.hasNull with
  | true =>
    rw [if_pos rfl, eq_comm, List.filter_eq_nil_iff]
    intro r _ hpairs
    cases hnull.symm.trans ((all_pairs_iff (List.mapM_eq_ok_iff.1 hkey)).1 hpairs).1
  | false =>
    rw [if_neg Bool.false_ne_true, index, KeyIndex.find_ofList, List.filter_filterMap, List.map_filterMap,
      ← List.filterMap_eq_filter]
    refine List.filterMap_congr fun r _ => ?_
    change _ = if step.pairs b r = true then some r else none
    rw [← any_indexed? hkey hnull]
    cases hindexed : step.indexed? r with
    | none => rfl
    | some i =>
      rw [← snd_of_indexed? hindexed]
      cases hsame : i.1.same key <;> simp only [Option.filter_some, Option.any_some, hsame] <;> rfl

theorem extend_index (hkey : step.leftKey b = .ok key) :
    step.extend right (step.index right) b = .ok (step.nested right b) := by
  unfold extend nested
  rw [Except.bind_of_ok hkey, partners_index hkey]
  cases right.rows.filter (step.pairs b) <;> cases step.kind <;> rfl

end JoinStep

/-! ## Steps -/

variable {sources : List SourceTable} {steps : List JoinStep} {joined : List String} {bindings : List Binding}

/-- The steps of a join that is accepted make loops over their tables, one in the other. -/
theorem joinSteps_eq_nested (hs : Coherent sources)
    (hleft : ∀ step ∈ steps, ∀ key ∈ step.on, anyHasColumn sources key.left = true)
    (hb : ∀ b ∈ bindings, b.Spans sources joined) (hcheck : JoinStep.checkAll sources steps joined = .ok ()) :
    ∃ rights, List.Forall₂ (fun (step : JoinStep) right => sourceTable sources step.table = .ok right) steps rights ∧
      joinSteps sources steps joined bindings =
        .ok ((steps.zip rights).foldl (fun bindings step => bindings.flatMap (step.1.nested step.2)) bindings) := by
  induction steps generalizing joined bindings with
  | nil => exact ⟨[], .nil, rfl⟩
  | cons step rest ih =>
    obtain ⟨_, hstep, hcheck⟩ := Except.bind_eq_ok_iff.1 hcheck
    obtain ⟨right, hright, hcheck⟩ := Except.bind_eq_ok_iff.1 hcheck
    have hleft₀ := hleft step List.mem_cons_self
    have hnested : bindings.mapM (step.extend right (step.index right)) =
        .ok (bindings.map (step.nested right)) := by
      refine List.mapM_eq_ok_iff.2 (List.forall₂_map_right_iff.2 (List.forall₂_same.2 fun b hmem => ?_))
      obtain ⟨key, hkey⟩ := JoinStep.exists_leftKey hs (hb b hmem) hstep hleft₀
      exact JoinStep.extend_index hkey
    obtain ⟨extended, hextended, hspans⟩ := exists_extended hs hright hstep hleft₀ hb
    cases hnested.symm.trans hextended
    obtain ⟨rights, hrights, hrest⟩ :=
      ih (fun step hmem => hleft step (List.mem_cons_of_mem _ hmem)) hspans hcheck
    refine ⟨right :: rights, .cons hright hrights, ?_⟩
    unfold joinSteps
    rw [Except.bind_of_ok hstep, Except.bind_of_ok hright, Except.bind_of_ok hnested, hrest]
    simp only [List.zip_cons_cons, List.foldl_cons, List.flatMap_def]

/-- No table is joined twice. -/
theorem nodup_of_checkAll (hjoined : joined.Nodup) (hcheck : JoinStep.checkAll sources steps joined = .ok ()) :
    (joined ++ steps.map JoinStep.table).Nodup := by
  induction steps generalizing joined with
  | nil => simpa using hjoined
  | cons step rest ih =>
    obtain ⟨_, hstep, hcheck⟩ := Except.bind_eq_ok_iff.1 hcheck
    obtain ⟨right, -, hcheck⟩ := Except.bind_eq_ok_iff.1 hcheck
    have hnew : step.table ∉ joined := by
      intro hmem
      unfold JoinStep.check at hstep
      rw [if_pos hmem] at hstep
      cases hstep
    rw [List.map_cons, ← List.singleton_append, ← List.append_assoc]
    refine ih ?_ hcheck
    rw [← List.concat_eq_append]
    exact hjoined.concat hnew

/-! ## Rows of bindings -/

/-- Tables of different names have no row in common. -/
def RowsApart (sources : List SourceTable) : Prop :=
  ∀ t ∈ sources, ∀ t' ∈ sources, ∀ r ∈ t.rows, ∀ r' ∈ t'.rows, r.row = r'.row → t.name = t'.name

/-- Tables that are bound in a sound store have no row in common, as its rows have single identities. -/
theorem rowsApart_of_bindSources {c : Catalog} {s : Store} {names : List String} (hwf : c.WellFormed)
    (hs : s.Sound) (h : names.mapM (bindSource c s) = .ok sources) : RowsApart sources := by
  have hrow : ∀ t ∈ sources, ∀ r ∈ t.rows, ∃ table ∈ c.tables, t.name = table.name ∧
      ∃ x ∈ s.extents, x.populated.table = table.id ∧ r.row.id ∈ x.ids := by
    intro t ht r hr
    obtain ⟨name, -, hbind⟩ := (List.mapM_eq_ok_iff.1 h).exists_of_mem_right ht
    obtain ⟨table, htable, hbind⟩ := Except.bind_eq_ok_iff.1 hbind
    obtain ⟨p, hp, row, hmem, hentity, -⟩ := SourceTable.exists_of_bind hbind hr
    obtain ⟨hpopulated, hp⟩ := Store.of_last?_eq_some hp
    obtain ⟨x, hx, rfl⟩ := List.mem_map.1 hpopulated
    rw [hs.rowsOf_of_mem hx] at hmem
    refine ⟨table, (Catalog.mem_of_table htable).1, SourceTable.name_of_bind hbind, x, hx,
      of_decide_eq_true hp, ?_⟩
    rw [hentity]
    exact List.mem_cons_of_mem _ (List.mem_append_left _ (List.mem_map_of_mem hmem))
  intro t ht t' ht' r hr r' hr' heq
  obtain ⟨table, hmem, hname, x, hx, hid, hrow₁⟩ := hrow t ht r hr
  obtain ⟨table', hmem', hname', x', hx', hid', hrow₂⟩ := hrow t' ht' r' hr'
  cases hs.eq_of_mem_ids hx hx' hrow₁ (heq ▸ hrow₂)
  rw [hname, hname', hwf.table_eq hmem hmem' (hid.symm.trans hid')]

theorem Binding.Spans.nodup_sourceRows {b : Binding} {names : List String} (h : b.Spans sources names)
    (hnames : names.Nodup) (hrows : RowsApart sources) : b.sourceRows.Nodup := by
  rw [← h.places] at hnames
  refine List.Pairwise.filterMap _ ?_ (List.pairwise_map.1 hnames |>.imp_of_mem
    (S := fun slot slot' => slot ∈ b.slots ∧ slot' ∈ b.slots ∧ slot.1.name ≠ slot'.1.name) ?_)
  · rintro slot slot' ⟨hslot, hslot', hne⟩ e he _ he' rfl
    obtain ⟨r, hr, rfl⟩ := Option.map_eq_some_iff.1 he
    obtain ⟨r', hr', heq⟩ := Option.map_eq_some_iff.1 he'
    obtain ⟨ht, hmem⟩ := h.rows slot hslot
    obtain ⟨ht', hmem'⟩ := h.rows slot' hslot'
    exact hne (hrows _ ht _ ht' r (hmem r hr) r' (hmem' r' hr') heq.symm)
  · exact fun hslot hslot' hne => ⟨hslot, hslot', hne⟩

/-! ## Joins -/

namespace Approach

variable {base : String}

theorem checks_of_createRows {c : Catalog} {functions : Functions} {a : Approach} {frames : List RowFrame}
    (hs : Coherent sources) (h : a.createRows c functions sources = .ok frames) :
    a.checkColumns sources = .ok () ∧ a.checkJoins sources = .ok () := by
  obtain ⟨_, hcolumns, -⟩ := Except.bind_eq_ok_iff.1 h
  refine ⟨hcolumns, ?_⟩
  cases hjoins : a.checkJoins sources with
  | ok => rfl
  | error e => cases h.symm.trans (createRows_of_checkJoins hs hcolumns hjoins)

/-- A join whose columns and steps are accepted makes the frames of the nested loop. -/
theorem exists_nestedLoop (c : Catalog) (functions : Functions) (hs : Coherent sources)
    (hcolumns : (join base steps).checkColumns sources = .ok ())
    (hjoins : (join base steps).checkJoins sources = .ok ()) :
    ∃ t rights, sourceTable sources base = .ok t ∧
      List.Forall₂ (fun (step : JoinStep) right => sourceTable sources step.table = .ok right) steps rights ∧
      (join base steps).createRows c functions sources =
        .ok ((nestedLoop t (steps.zip rights)).map fun b => .ofScope (.row b)) := by
  obtain ⟨t, ht, hsteps⟩ := Except.bind_eq_ok_iff.1 hjoins
  have hleft : ∀ step ∈ steps, ∀ key ∈ step.on, anyHasColumn sources key.left = true :=
    fun _ hstep _ hkey => anyHasColumn_of_checkColumns hcolumns _ (left_mem_sourceColumns hstep hkey)
  have hb : ∀ b ∈ t.rows.map (Binding.single t), b.Spans sources [t.name] := by
    intro b hb
    obtain ⟨r, hr, rfl⟩ := List.mem_map.1 hb
    exact Binding.spans_single (mem_of_sourceTable ht).1 hr
  obtain ⟨rights, hrights, hloops⟩ := joinSteps_eq_nested hs hleft hb hsteps
  refine ⟨t, rights, ht, hrights, ?_⟩
  unfold createRows joinRows
  dsimp only
  rw [Except.bind_of_ok hcolumns, Except.bind_of_ok ht, Except.bind_of_ok hloops]
  rfl

theorem nodup_sourceTables (hjoins : (join base steps).checkJoins sources = .ok ()) :
    (join base steps).sourceTables.Nodup := by
  obtain ⟨t, ht, hsteps⟩ := Except.bind_eq_ok_iff.1 hjoins
  have hnodup := nodup_of_checkAll (List.nodup_singleton t.name) hsteps
  rwa [(mem_of_sourceTable ht).2] at hnodup

/-- A join of tables that hold a cell in each of their columns succeeds exactly if its columns and its steps are
accepted, and then its frames are those of the nested loop, in the same order. The source rows of a frame are
the rows in the places of its binding that are not empty. Payloads of one type are paired if comparing them
says that they are equal. -/
theorem createRows_join_nestedLoop (c : Catalog) (functions : Functions) (base : String) (steps : List JoinStep)
    (hs : Coherent sources) :
    ((∃ frames, (join base steps).createRows c functions sources = .ok frames) ↔
      (join base steps).checkColumns sources = .ok () ∧ (join base steps).checkJoins sources = .ok ()) ∧
    (∀ frames, (join base steps).createRows c functions sources = .ok frames →
      ∃ t rights, sourceTable sources base = .ok t ∧
        List.Forall₂ (fun (step : JoinStep) right => sourceTable sources step.table = .ok right) steps rights ∧
        frames = (nestedLoop t (steps.zip rights)).map (fun b => .ofScope (.row b)) ∧
        ∀ b ∈ nestedLoop t (steps.zip rights),
          let places := b.slots.filterMap fun slot => slot.2.map SourceRow.row
          (RowFrame.ofScope (.row b)).sourceRows = distinct places ∧
            (RowsApart sources → (RowFrame.ofScope (.row b)).sourceRows = places)) ∧
    ∀ (key : JoinKey) b r v cell, b.payload key.left = .ok v → r.cell? key.right = some cell →
      v.isNull = false → cell.payload.isNull = false → v.dataType? = cell.payload.dataType? →
        (key.pairs b r = true ↔ BinaryOp.apply .eq v cell.payload = .ok (.bool true)) := by
  refine ⟨⟨?_, ?_⟩, ?_, ?_⟩
  · rintro ⟨frames, h⟩
    exact checks_of_createRows hs h
  · rintro ⟨hcolumns, hjoins⟩
    obtain ⟨t, rights, -, -, hmade⟩ := exists_nestedLoop c functions hs hcolumns hjoins
    exact ⟨_, hmade⟩
  · intro frames h
    obtain ⟨hcolumns, hjoins⟩ := checks_of_createRows hs h
    obtain ⟨t, rights, ht, hrights, hmade⟩ := exists_nestedLoop c functions hs hcolumns hjoins
    cases h.symm.trans hmade
    refine ⟨t, rights, ht, hrights, rfl, fun b hb => ?_⟩
    have hdistinct : (RowFrame.ofScope (.row b)).sourceRows = distinct b.sourceRows := by
      simp [RowFrame.ofScope, Scope.sourceRows, Scope.partition]
    refine ⟨hdistinct, fun hrows => ?_⟩
    have hspans : b.Spans sources (join base steps).sourceTables :=
      spans_of_mem_createRows hmade (List.mem_map_of_mem hb) b (List.mem_singleton_self b)
    rw [hdistinct, distinct_of_nodup (hspans.nodup_sourceRows (nodup_sourceTables hjoins) hrows)]
    rfl
  · intro key b r v cell hv hcell hnull hnull' htype
    rw [JoinKey.pairs_iff hv, ← Scalar.eqv_iff_apply_eq hnull htype]
    simp [hnull, hcell, hnull', Scalar.eqv_comm v]

end Approach

namespace Sample

/-- A row with texts in some columns, and nothing where there is none. -/
def textRow (number : Nat) (cells : List (String × Option String)) : SourceRow :=
  ⟨⟨.databaseRow, ⟨number⟩⟩, cells.zipIdx.map fun cell =>
    (cell.1.1, ⟨⟨.databaseValue, ⟨number + 1 + cell.2⟩⟩, (cell.1.2.map Scalar.text).getD .null⟩)⟩

/-- Orders of people who live somewhere. One order is of nobody, and one is of somebody who is not known. -/
def orders : SourceTable :=
  ⟨"order", ["person"],
    [textRow 10 [("person", some "ann")], textRow 20 [("person", none)], textRow 30 [("person", some "bob")]]⟩

def people : SourceTable :=
  ⟨"person", ["name", "city"],
    [textRow 40 [("name", some "ann"), ("city", some "rome")], textRow 50 [("name", some "ann"), ("city", none)]]⟩

def cities : SourceTable := ⟨"city", ["name"], [textRow 60 [("name", some "rome")]]⟩

def channels : SourceTable :=
  ⟨"channel", ["name"], [textRow 70 [("name", some "web")], textRow 80 [("name", some "shop")]]⟩

/-- The orders with their people, if there are any, the cities of these, if they have any, and each channel. -/
def orderSteps : List JoinStep :=
  [⟨"person", .leftOuter, [⟨⟨"order", "person"⟩, "name"⟩]⟩, ⟨"city", .leftOuter, [⟨⟨"person", "city"⟩, "name"⟩]⟩,
    ⟨"channel", .inner, []⟩]

/-- An order of nobody finds nobody, and then no city: an empty place pairs with nothing. The step without keys
pairs everything. -/
theorem createRows_orders :
    let sources := [orders, people, cities, channels]
    Coherent sources ∧ RowsApart sources ∧
    ∃ frames, (Approach.join "order" orderSteps).createRows saleCatalog .empty sources = .ok frames ∧
      (frames.map fun frame => frame.sourceRows.map fun e => e.id.number) =
        [[10, 40, 60, 70], [10, 40, 60, 80], [10, 50, 70], [10, 50, 80], [20, 70], [20, 80], [30, 70], [30, 80]] ∧
      frames = (nestedLoop orders (orderSteps.zip [people, cities, channels])).map fun b => .ofScope (.row b) := by
  intro sources
  have hs : Coherent sources :=
    ⟨by decide, fun t ht t' ht' hname => List.inj_on_of_nodup_map (by decide) ht ht' hname⟩
  have hrows : RowsApart sources := by
    unfold RowsApart
    decide
  obtain ⟨hreturns, hframes, -⟩ :=
    Approach.createRows_join_nestedLoop saleCatalog .empty "order" orderSteps hs
  obtain ⟨frames, hmade⟩ := hreturns.2 ⟨rfl, rfl⟩
  obtain ⟨t, rights, ht, hrights, heq, -⟩ := hframes frames hmade
  have hnumbers : ((Approach.join "order" orderSteps).createRows saleCatalog .empty sources).map
      (fun frames => frames.map fun frame => frame.sourceRows.map fun e => e.id.number) =
      .ok [[10, 40, 60, 70], [10, 40, 60, 80], [10, 50, 70], [10, 50, 80], [20, 70], [20, 80], [30, 70],
        [30, 80]] := rfl
  rw [hmade] at hnumbers
  have hfound := List.mapM_eq_ok_iff.2 hrights
  cases ht
  cases hfound
  exact ⟨hs, hrows, frames, hmade, Except.ok.inj hnumbers, heq⟩

end Sample

end Provenance
