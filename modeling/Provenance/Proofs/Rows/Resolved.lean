import Provenance.Proofs.Evaluation.Failure

/-!
# Resolved columns

Source tables that hold a cell for each of their columns in every row, and one table only under each name
(`Coherent`). In a binding over all of them every column that they have can be looked up, so neither joining
nor grouping fails over the rows of such tables: a join fails exactly if one of its steps names a table or a
column that is not at hand, which needs no row to be seen (`joinSteps_eq_error_iff`). An expression whose
columns they have is evaluated without meeting an unresolved one (`Expr.Resolved.failsOnly_evaluate`). Main
statement: `Approach.failsOnly_createRows`.
-/

namespace Provenance

/-- Tables that have all their cells, and of which no two share a name. -/
structure Coherent (sources : List SourceTable) : Prop where
  complete : ∀ t ∈ sources, ∀ r ∈ t.rows, ∀ column ∈ t.columns, (r.cell? column).isSome
  single : ∀ t ∈ sources, ∀ t' ∈ sources, t.name = t'.name → t = t'

/-- A binding over rows of the given tables with a place for each of some names. -/
structure Binding.Spans (sources : List SourceTable) (names : List String) (b : Binding) : Prop where
  rows : b.From sources
  places : b.slots.map (fun slot => slot.1.name) = names

variable {sources : List SourceTable} {names : List String}

namespace Binding

variable {b : Binding} {name : ColumnName} {t : SourceTable}

theorem spans_single {r : SourceRow} (ht : t ∈ sources) (hr : r ∈ t.rows) :
    (single t r).Spans sources [t.name] :=
  ⟨from_single ht hr, rfl⟩

theorem Spans.extend {r : Option SourceRow} (h : b.Spans sources names) (ht : t ∈ sources)
    (hr : ∀ r', r = some r' → r' ∈ t.rows) : (b.extend t r).Spans sources (names ++ [t.name]) where
  rows := h.rows.extend ht hr
  places := by
    rw [← h.places]
    simp [Binding.extend]

/-- A column of a table that has a place can be looked up. -/
theorem Spans.exists_lookup (h : b.Spans sources names) (hs : Coherent sources) (hplace : name.table ∈ names)
    (hhas : anyHasColumn sources name = true) : ∃ cell?, b.lookup name = .ok cell? := by
  obtain ⟨t, ht, hhas⟩ := List.any_eq_true.1 hhas
  obtain ⟨hname, hcolumn⟩ := Bool.and_eq_true_iff.1 hhas
  have hname : t.name = name.table := eq_of_beq hname
  cases hfind : b.slots.find? fun slot => slot.1.name = name.table with
  | none =>
    rw [← h.places] at hplace
    obtain ⟨slot, hslot, heq⟩ := List.mem_map.1 hplace
    exact absurd (decide_eq_true heq) (List.find?_eq_none.1 hfind slot hslot)
  | some slot =>
    obtain ⟨t', r⟩ := slot
    have hname' : t'.name = name.table := by simpa using List.find?_some hfind
    obtain ⟨ht', hr⟩ := h.rows _ (List.mem_of_find?_eq_some hfind)
    have heq : t' = t := hs.single t' ht' t ht (hname'.trans hname.symm)
    subst heq
    unfold lookup
    simp only [hfind, hcolumn, Bool.not_true, Bool.false_eq_true, if_false]
    cases r with
    | none => exact ⟨none, rfl⟩
    | some r =>
      have hcell := hs.complete t' ht' r (hr r rfl) name.column (by simpa [SourceTable.hasColumn] using hcolumn)
      obtain ⟨cell, hcell⟩ := Option.isSome_iff_exists.1 hcell
      simp only [hcell]
      exact ⟨some cell, rfl⟩

theorem Spans.exists_payload (h : b.Spans sources names) (hs : Coherent sources)
    (hplace : name.table ∈ names) (hhas : anyHasColumn sources name = true) :
    ∃ v, b.payload name = .ok v := by
  obtain ⟨cell?, hlookup⟩ := h.exists_lookup hs hplace hhas
  unfold payload
  rw [hlookup]
  cases cell? with
  | none => exact ⟨.null, rfl⟩
  | some cell => exact ⟨cell.payload, rfl⟩

end Binding

theorem mem_names_of_anyHasColumn {name : ColumnName} (hnames : ∀ t ∈ sources, t.name ∈ names)
    (hhas : anyHasColumn sources name = true) : name.table ∈ names := by
  obtain ⟨t, ht, hhas⟩ := List.any_eq_true.1 hhas
  exact eq_of_beq (Bool.and_eq_true_iff.1 hhas).1 ▸ hnames t ht

/-! ## Expressions -/

/-- The sources have all columns that an expression names, and the schema all those of cubes. -/
structure Expr.Resolved (c : Catalog) (sources : List SourceTable) (e : Expr) : Prop where
  leaves : ∀ name ∈ e.leaves, anyHasColumn sources name = true
  cubes : ∀ name ∈ e.cubeColumns, c.hasColumn name.toColumn = true

theorem Expr.Resolved.failsOnly_evaluate {c : Catalog} {functions : Functions} {e : Expr} {s : Scope}
    (h : e.Resolved c sources) (hs : Coherent sources) (hnames : ∀ t ∈ sources, t.name ∈ names)
    (hspans : ∀ b ∈ s.partition, b.Spans sources names) :
    (e.evaluate c functions s).FailsOnly functions.Incurs := by
  apply Expr.failsOnly_evaluate
  apply Expr.failsOnly_eval
  case hcomputational => exact fun _ => .inl
  case hraises => exact fun _ => .inr
  case hread =>
    intro name hname b hb
    have hhas := h.leaves name hname
    obtain ⟨cell?, hlookup⟩ :=
      (hspans b hb).exists_lookup hs (mem_names_of_anyHasColumn hnames hhas) hhas
    exact .of_eq_ok hlookup
  case hcube =>
    intro name hname hmissing
    rw [h.cubes name hname] at hmissing
    cases hmissing

/-! ## Joins -/

namespace JoinStep

variable {step : JoinStep} {joined : List String} {b b' : Binding} {right : SourceTable}

/-- Accepts the steps of a join whose tables and left columns are at hand, without looking at any row. -/
def checkAll (sources : List SourceTable) : List JoinStep → List String → Except Error Unit
  | [], _ => .ok ()
  | step :: rest, joined => do
    step.check joined
    let _ ← sourceTable sources step.table
    checkAll sources rest (joined ++ [step.table])

theorem mem_joined_of_check (h : step.check joined = .ok ()) : ∀ key ∈ step.on, key.left.table ∈ joined := by
  unfold check at h
  split at h
  · cases h
  · split at h
    · cases h
    · next hnone =>
      intro key hkey
      simpa using List.find?_eq_none.1 hnone key hkey

theorem exists_leftKey (hs : Coherent sources) (hb : b.Spans sources joined)
    (hcheck : step.check joined = .ok ()) (hleft : ∀ key ∈ step.on, anyHasColumn sources key.left = true) :
    ∃ key, step.leftKey b = .ok key := by
  obtain ⟨key, hkey⟩ := List.exists_forall₂ fun key hkey =>
    hb.exists_payload hs (mem_joined_of_check hcheck key hkey) (hleft key hkey)
  exact ⟨key, List.mapM_eq_ok_iff.2 hkey⟩

theorem exists_extend (hs : Coherent sources) (hb : b.Spans sources joined)
    (hcheck : step.check joined = .ok ()) (hleft : ∀ key ∈ step.on, anyHasColumn sources key.left = true) :
    ∃ bs, step.extend right (step.index right) b = .ok bs := by
  obtain ⟨key, hkey⟩ := exists_leftKey hs hb hcheck hleft
  unfold extend
  rw [hkey]
  simp only [bind, Except.bind]
  split <;> exact ⟨_, rfl⟩

theorem spans_of_mem_extend {bs : List Binding} (hb : b.Spans sources joined) (hright : right ∈ sources)
    (h : step.extend right (step.index right) b = .ok bs) (hb' : b' ∈ bs) :
    b'.Spans sources (joined ++ [right.name]) := by
  obtain ⟨key, -, h⟩ := Except.bind_eq_ok_iff.1 h
  split at h
  · cases h
    cases hb'
  · cases h
    cases List.mem_singleton.1 hb'
    exact hb.extend hright nofun
  · cases h
    obtain ⟨r, hr, rfl⟩ := List.mem_map.1 hb'
    exact hb.extend hright fun r' hr' => Option.some.inj hr' ▸ mem_rows_of_mem_partners hr

end JoinStep

section

variable {steps : List JoinStep} {joined : List String} {bindings : List Binding}

/-- The bindings after a step of a join that is accepted. -/
theorem exists_extended {step : JoinStep} {right : SourceTable} (hs : Coherent sources)
    (hright : sourceTable sources step.table = .ok right) (hcheck : step.check joined = .ok ())
    (hleft : ∀ key ∈ step.on, anyHasColumn sources key.left = true)
    (hb : ∀ b ∈ bindings, b.Spans sources joined) :
    ∃ extended, bindings.mapM (step.extend right (step.index right)) = .ok extended ∧
      ∀ b ∈ extended.flatten, b.Spans sources (joined ++ [step.table]) := by
  have hextend : ∀ b ∈ bindings, ∃ bs, step.extend right (step.index right) b = .ok bs :=
    fun b hmem => JoinStep.exists_extend hs (hb b hmem) hcheck hleft
  obtain ⟨extended, hextended⟩ := List.exists_forall₂ hextend
  refine ⟨extended, List.mapM_eq_ok_iff.2 hextended, fun b hmem => ?_⟩
  obtain ⟨bs, hbs, hmem⟩ := List.mem_flatten.1 hmem
  obtain ⟨b₀, hb₀, hstep⟩ := hextended.exists_of_mem_right hbs
  obtain ⟨hright, hname⟩ := mem_of_sourceTable hright
  rw [← hname]
  exact JoinStep.spans_of_mem_extend (hb b₀ hb₀) hright hstep hmem

/-- A join fails exactly as the check of its steps does. -/
theorem joinSteps_eq_error_iff {e : Error} (hs : Coherent sources)
    (hleft : ∀ step ∈ steps, ∀ key ∈ step.on, anyHasColumn sources key.left = true)
    (hb : ∀ b ∈ bindings, b.Spans sources joined) :
    joinSteps sources steps joined bindings = .error e ↔
      JoinStep.checkAll sources steps joined = .error e := by
  induction steps generalizing joined bindings with
  | nil => simp [joinSteps, JoinStep.checkAll]
  | cons step rest ih =>
    unfold joinSteps JoinStep.checkAll
    cases hcheck : step.check joined with
    | error e' => simp [bind, Except.bind]
    | ok =>
      cases hright : sourceTable sources step.table with
      | error e' => simp [bind, Except.bind]
      | ok right =>
        obtain ⟨extended, hextended, hb⟩ := exists_extended hs hright hcheck
          (hleft step List.mem_cons_self) hb
        simp only [bind, Except.bind, hextended]
        exact ih (fun step hstep => hleft step (List.mem_cons_of_mem _ hstep)) hb

theorem spans_of_mem_joinSteps {result : List Binding} (hb : ∀ b ∈ bindings, b.Spans sources joined)
    (h : joinSteps sources steps joined bindings = .ok result) :
    ∀ b ∈ result, b.Spans sources (joined ++ steps.map JoinStep.table) := by
  induction steps generalizing joined bindings with
  | nil =>
    cases h
    simpa using hb
  | cons step rest ih =>
    obtain ⟨_, -, h⟩ := Except.bind_eq_ok_iff.1 h
    obtain ⟨right, hright, h⟩ := Except.bind_eq_ok_iff.1 h
    obtain ⟨extended, hextended, h⟩ := Except.bind_eq_ok_iff.1 h
    obtain ⟨hright, hname⟩ := mem_of_sourceTable hright
    have hspans : ∀ b ∈ extended.flatten, b.Spans sources (joined ++ [step.table]) := by
      intro b hmem
      obtain ⟨bs, hbs, hmem⟩ := List.mem_flatten.1 hmem
      obtain ⟨b₀, hb₀, hstep⟩ := (List.mapM_eq_ok_iff.1 hextended).exists_of_mem_right hbs
      rw [← hname]
      exact JoinStep.spans_of_mem_extend (hb b₀ hb₀) hright hstep hmem
    rw [List.map_cons, ← List.singleton_append, ← List.append_assoc]
    exact ih hspans h

end

/-! ## Groups -/

/-- What is grouped are the rows of the table, each alone. -/
theorem exists_single_of_mem_groupRows {t : SourceTable} {keys : List ColumnName} {g : KeyEntry Binding}
    {groups : KeyIndex Binding} {b : Binding} (h : groupRows t keys = .ok groups) (hg : g ∈ groups)
    (hb : b ∈ g.items) : ∃ r ∈ t.rows, .single t r = b := by
  obtain ⟨items, hitems, h⟩ := Except.bind_eq_ok_iff.1 h
  cases h
  have hitem : ∀ key, (key, b) ∈ items → ∃ r ∈ t.rows, .single t r = b := by
    intro key hmem
    obtain ⟨r, hr, hkeyed⟩ := (List.mapM_eq_ok_iff.1 hitems).exists_of_mem_right hmem
    obtain ⟨_, -, hkeyed⟩ := Except.bind_eq_ok_iff.1 hkeyed
    cases hkeyed
    exact ⟨r, hr, rfl⟩
  obtain ⟨first, rest, hmembers, hfirst, hrest⟩ := KeyIndex.headed_of_mem_ofList hg
  rw [hmembers] at hb
  rcases List.mem_cons.1 hb with rfl | hb
  · exact hitem _ hfirst
  · obtain ⟨key, hkey⟩ := hrest b hb
    exact hitem key hkey

/-! ## Approaches -/

namespace Approach

variable {c : Catalog} {functions : Functions} {a : Approach} {frames : List RowFrame} {frame : RowFrame}
  {e : Error}

/-- Accepts a join whose tables and left columns are at hand when they are needed. -/
def checkJoins (a : Approach) (sources : List SourceTable) : Except Error Unit :=
  match a with
  | .join base steps => do
    let t ← sourceTable sources base
    JoinStep.checkAll sources steps [t.name]
  | _ => .ok ()

theorem anyHasColumn_of_checkColumns (h : a.checkColumns sources = .ok ()) :
    ∀ name ∈ a.sourceColumns, anyHasColumn sources name = true := by
  unfold checkColumns at h
  split at h
  · cases h
  · next hnone =>
    intro name hname
    simpa using List.find?_eq_none.1 hnone name hname

theorem left_mem_sourceColumns {base : String} {steps : List JoinStep} {step : JoinStep} {key : JoinKey}
    (hstep : step ∈ steps) (hkey : key ∈ step.on) : key.left ∈ (join base steps).sourceColumns :=
  List.mem_flatMap.2 ⟨step, hstep, List.mem_flatMap.2 ⟨key, hkey, List.mem_cons_self⟩⟩

/-- A join whose columns the sources have fails exactly as the check of its steps does. -/
theorem joinRows_eq_error_iff {base : String} {steps : List JoinStep} {t : SourceTable}
    (hs : Coherent sources) (hcolumns : (join base steps).checkColumns sources = .ok ())
    (ht : sourceTable sources base = .ok t) :
    joinRows sources t steps = .error e ↔ (join base steps).checkJoins sources = .error e := by
  have hcheck : (join base steps).checkJoins sources = JoinStep.checkAll sources steps [t.name] := by
    simp only [checkJoins, ht, bind, Except.bind]
  rw [hcheck]
  apply joinSteps_eq_error_iff hs
  · intro step hstep key hkey
    exact anyHasColumn_of_checkColumns hcolumns key.left (left_mem_sourceColumns hstep hkey)
  · intro b hb
    obtain ⟨r, hr, rfl⟩ := List.mem_map.1 hb
    exact Binding.spans_single (mem_of_sourceTable ht).1 hr

/-- Rows are not made if the check of a join fails. -/
theorem createRows_of_checkJoins (hs : Coherent sources) (hcolumns : a.checkColumns sources = .ok ())
    (h : a.checkJoins sources = .error e) : a.createRows c functions sources = .error e := by
  cases a with
  | filter | enrichment | group => cases h
  | join base steps =>
    refine Except.bind_eq_error_iff.2 (.inr ⟨_, hcolumns, ?_⟩)
    have hbind := h
    rcases Except.bind_eq_error_iff.1 hbind with hfind | ⟨t, hfind, -⟩
    · exact Except.bind_eq_error_iff.2 (.inl hfind)
    · have hrows := (joinRows_eq_error_iff hs hcolumns hfind).2 h
      exact Except.bind_eq_error_iff.2 (.inr ⟨t, hfind, Except.bind_eq_error_iff.2 (.inl hrows)⟩)

/-- Every binding of a frame has a place for each source table of the approach. -/
theorem spans_of_mem_createRows (h : a.createRows c functions sources = .ok frames) (hf : frame ∈ frames) :
    ∀ b ∈ frame.scope.partition, b.Spans sources a.sourceTables := by
  obtain ⟨_, -, h⟩ := Except.bind_eq_ok_iff.1 h
  cases a with
  | filter source predicate =>
    obtain ⟨t, hfind, h⟩ := Except.bind_eq_ok_iff.1 h
    obtain ⟨kept, hkept, h⟩ := Except.bind_eq_ok_iff.1 h
    cases h
    obtain ⟨ht, rfl⟩ := mem_of_sourceTable hfind
    obtain ⟨frame?, hmem, rfl⟩ := List.mem_filterMap.1 hf
    obtain ⟨r, hr, hrow⟩ := (List.mapM_eq_ok_iff.1 hkept).exists_of_mem_right hmem
    obtain ⟨result, -, hrow⟩ := Except.bind_eq_ok_iff.1 hrow
    obtain ⟨keep, -, hrow⟩ := Except.bind_eq_ok_iff.1 hrow
    cases keep with
    | false => cases hrow
    | true =>
      cases hrow
      intro b hb
      rw [List.mem_singleton.1 hb]
      exact Binding.spans_single ht hr
  | enrichment source =>
    obtain ⟨t, hfind, h⟩ := Except.bind_eq_ok_iff.1 h
    cases h
    obtain ⟨ht, rfl⟩ := mem_of_sourceTable hfind
    obtain ⟨r, hr, rfl⟩ := List.mem_map.1 hf
    intro b hb
    rw [List.mem_singleton.1 hb]
    exact Binding.spans_single ht hr
  | join base steps =>
    obtain ⟨t, hfind, h⟩ := Except.bind_eq_ok_iff.1 h
    obtain ⟨bindings, hbindings, h⟩ := Except.bind_eq_ok_iff.1 h
    cases h
    obtain ⟨ht, rfl⟩ := mem_of_sourceTable hfind
    obtain ⟨b, hmem, rfl⟩ := List.mem_map.1 hf
    intro b' hb'
    rw [List.mem_singleton.1 hb']
    refine spans_of_mem_joinSteps (fun b₀ hb₀ => ?_) hbindings b hmem
    obtain ⟨r, hr, rfl⟩ := List.mem_map.1 hb₀
    exact Binding.spans_single ht hr
  | group source keys =>
    obtain ⟨t, hfind, h⟩ := Except.bind_eq_ok_iff.1 h
    obtain ⟨groups, hgroups, h⟩ := Except.bind_eq_ok_iff.1 h
    cases h
    obtain ⟨ht, rfl⟩ := mem_of_sourceTable hfind
    obtain ⟨g, hg, rfl⟩ := List.mem_map.1 hf
    intro b hb
    obtain ⟨r, hr, rfl⟩ := exists_single_of_mem_groupRows hgroups hg hb
    exact Binding.spans_single ht hr

theorem failsOnly_filterRow {t : SourceTable} {r : SourceRow} {predicate : Expr} (hs : Coherent sources)
    (hnames : ∀ t' ∈ sources, t'.name ∈ [t.name]) (ht : t ∈ sources) (hr : r ∈ t.rows)
    (hresolved : predicate.Resolved c sources) :
    (filterRow c functions predicate t r).FailsOnly functions.Incurs := by
  have hspans : ∀ b ∈ (Scope.row (.single t r)).partition, b.Spans sources [t.name] := by
    intro b hb
    rw [List.mem_singleton.1 hb]
    exact Binding.spans_single ht hr
  apply (hresolved.failsOnly_evaluate hs hnames hspans).bind
  intro result _
  apply (Scalar.failsOnly_holds.mono fun _ he => Or.inl he : Except.FailsOnly functions.Incurs _).bind
  intro keep _
  exact .ok

theorem failsOnly_keyed {t : SourceTable} {r : SourceRow} {keys : List ColumnName} (hs : Coherent sources)
    (hnames : ∀ t' ∈ sources, t'.name ∈ [t.name]) (ht : t ∈ sources) (hr : r ∈ t.rows)
    (hhas : ∀ name ∈ keys, anyHasColumn sources name = true) :
    (keyed t keys r).FailsOnly functions.Incurs := by
  have hpayload : ∀ name ∈ keys, ((Binding.single t r).payload name).FailsOnly functions.Incurs := by
    intro name hname
    have hplace := mem_names_of_anyHasColumn hnames (hhas name hname)
    obtain ⟨v, hv⟩ := (Binding.spans_single ht hr).exists_payload hs hplace (hhas name hname)
    exact .of_eq_ok hv
  apply (List.failsOnly_mapM hpayload).bind
  intro key _
  exact .ok

/-- Rows that are made of coherent tables fail only in computing, if the columns that decide about them have
been checked. -/
theorem failsOnly_createRows (hs : Coherent sources) (hnames : ∀ t ∈ sources, t.name ∈ a.sourceTables)
    (hfilter : ∀ source predicate, a = .filter source predicate → predicate.Resolved c sources)
    (hcolumns : a.checkColumns sources = .ok ()) (hjoins : a.checkJoins sources = .ok ()) :
    (a.createRows c functions sources).FailsOnly functions.Incurs := by
  have htable : ∀ name, (sourceTable sources name).FailsOnly functions.Incurs := by
    intro name
    unfold sourceTable
    split
    · exact .ok
    · exact .error (.inl trivial)
  have hhas := anyHasColumn_of_checkColumns hcolumns
  unfold createRows
  rw [hcolumns]
  cases a with
  | filter source predicate =>
    apply (htable source).bind
    intro t hfind
    obtain ⟨ht, rfl⟩ := mem_of_sourceTable hfind
    have hresolved := hfilter t.name predicate rfl
    apply (List.failsOnly_mapM fun r hr => failsOnly_filterRow hs hnames ht hr hresolved).bind
    intro kept _
    exact .ok
  | enrichment source =>
    apply (htable source).bind
    intro t _
    exact .ok
  | join base steps =>
    apply (htable base).bind
    intro t ht
    have hrows : (joinRows sources t steps).FailsOnly functions.Incurs := by
      intro e he
      cases hjoins.symm.trans ((joinRows_eq_error_iff hs hcolumns ht).1 he)
    apply hrows.bind
    intro bindings _
    exact .ok
  | group source keys =>
    apply (htable source).bind
    intro t hfind
    obtain ⟨ht, rfl⟩ := mem_of_sourceTable hfind
    have hkeyed : (t.rows.mapM (keyed t keys)).FailsOnly functions.Incurs :=
      List.failsOnly_mapM fun r hr => failsOnly_keyed hs hnames ht hr hhas
    apply (hkeyed.bind fun _ _ => .ok).bind
    intro groups _
    exact .ok

end Approach

end Provenance
