import Provenance.Proofs.Evaluation.Footprint

/-!
# What evaluation may fail with

An expression fails with an error of computing over payloads, with one that a registered function raises, or
because a leaf cannot be read. So a bound on what the leaves fail with is one for the whole expression
(`Expr.failsOnly_evaluate`). Whatever is evaluated reads a cell or an empty place for each of its leaves, as
long as there is a binding to read from (`Expr.read_of_evaluate`).
-/

namespace Provenance

namespace Error

/-- An error of computing what a definition asks for from the payloads at hand. -/
def Computational : Error → Prop
  | .unknownTable _ | .unknownFunction _ | .unknownHierarchy _ | .mismatch _ | .overflow _
  | .divisionByZero | .invalid _ => True
  | _ => False

/-- The error that a column could not be resolved. -/
def Unresolved : Error → Prop
  | .unresolvedColumn _ | .unresolvedSpeculative _ => True
  | _ => False

end Error

/-- One of the functions raises an error for some arguments. -/
def Functions.Raises (fs : Functions) (e : Error) : Prop :=
  ∃ entry ∈ fs.entries, ∃ args, entry.2 args = .error e

/-- An error that computing with some functions may end in. -/
def Functions.Incurs (fs : Functions) (e : Error) : Prop := e.Computational ∨ fs.Raises e

/-! ## Operations on scalars -/

namespace Scalar

variable {a b v : Scalar} {op : ArithOp}

theorem failsOnly_condition : v.condition.FailsOnly Error.Computational := by
  unfold condition
  split
  · exact .ok
  · exact .ok
  · exact .error trivial

theorem failsOnly_holds : v.holds.FailsOnly Error.Computational := by
  unfold holds
  split
  · exact .ok
  · exact .ok
  · exact .error trivial

theorem failsOnly_compare : (a.compare b).FailsOnly Error.Computational := by
  unfold compare
  split <;> first | exact .ok | exact .error trivial

theorem failsOnly_orOverflow {result : Option Scalar} :
    (orOverflow op a b result).FailsOnly Error.Computational := by
  cases result with
  | none => exact .error trivial
  | some v => exact .ok

theorem failsOnly_arith : (arith op a b).FailsOnly Error.Computational := by
  unfold arith
  split
  · exact .ok
  · exact .ok
  · split
    · exact .error trivial
    · exact failsOnly_orOverflow
  · split
    · exact .error trivial
    · exact failsOnly_orOverflow
  · exact .error trivial

theorem failsOnly_negate : v.negate.FailsOnly Error.Computational := by
  unfold negate
  split
  · exact .ok
  · split
    · exact .ok
    · exact .error trivial
  · exact .ok
  · exact .error trivial

end Scalar

theorem UnaryOp.failsOnly_apply {op : UnaryOp} {v : Scalar} :
    (op.apply v).FailsOnly Error.Computational := by
  cases op with
  | isNull => exact .ok
  | neg => exact Scalar.failsOnly_negate
  | not =>
    apply Scalar.failsOnly_condition.bind
    intro b _
    exact .ok

theorem BinaryOp.failsOnly_apply {op : BinaryOp} {a b : Scalar} :
    (op.apply a b).FailsOnly Error.Computational := by
  have hconnected : ∀ f : Option Bool → Option Bool → Option Bool, (do
      pure (Scalar.ofCondition (f (← a.condition) (← b.condition))) : Except Error Scalar).FailsOnly
        Error.Computational := by
    intro f
    apply Scalar.failsOnly_condition.bind
    intro p _
    apply Scalar.failsOnly_condition.bind
    intro q _
    exact .ok
  cases op with
  | add | sub | mul | div => exact Scalar.failsOnly_arith
  | and | or => exact hconnected _
  | eq | ne | lt | le | gt | ge =>
    unfold apply
    apply Scalar.failsOnly_compare.bind
    intro order? _
    cases order? with
    | none => exact .ok
    | some order => exact .ok

/-! ## Aggregates -/

namespace AggregateFn

variable {func : AggregateFn} {first : Scalar} {values : List Scalar}

theorem failsOnly_requireOneType :
    (func.requireOneType first values).FailsOnly Error.Computational := by
  unfold requireOneType
  split
  · exact .error trivial
  · exact .ok

theorem failsOnly_requireNumeric :
    (func.requireNumeric first).FailsOnly Error.Computational := by
  unfold requireNumeric
  split
  · exact .ok
  · exact .ok
  · exact .error trivial

theorem failsOnly_extreme {wanted : Ordering} :
    (extreme wanted first values).FailsOnly Error.Computational := by
  apply List.failsOnly_foldlM
  intro v _ best
  apply Scalar.failsOnly_compare.bind
  intro order _
  exact .ok

theorem failsOnly_average : (average values).FailsOnly Error.Computational := by
  have hadd : ∀ total v, (addToTotal values.length total v).FailsOnly Error.Computational := by
    intro total v
    unfold addToTotal
    split
    · exact .ok
    · exact .error trivial
  apply (List.failsOnly_foldlM (fun v _ total => hadd total v) _).bind
  intro total _
  split
  · exact .ok
  · exact .error trivial

theorem failsOnly_apply : (func.apply values).FailsOnly Error.Computational := by
  unfold apply
  dsimp only
  split
  · exact .ok
  · exact .ok
  · apply failsOnly_requireOneType.bind
    intro _ _
    split
    · exact .ok
    · apply failsOnly_requireNumeric.bind
      intro _ _
      exact List.failsOnly_foldlM (fun v _ total => Scalar.failsOnly_arith) _
    · exact failsOnly_extreme
    · exact failsOnly_extreme
    · apply failsOnly_requireNumeric.bind
      intro _ _
      exact failsOnly_average

end AggregateFn

/-! ## Functions -/

namespace Functions

variable {fs : Functions} {name : String} {args : List Scalar}

theorem failsOnly_call :
    (fs.call name args).FailsOnly fun e => e.Computational ∨ fs.Raises e := by
  unfold call
  split
  · next f hget =>
    obtain ⟨before, after, hentries, -⟩ := List.lookup_eq_some_iff.1 hget
    have hentry : (name, f) ∈ fs.entries := by simp [hentries]
    exact fun e he => .inr ⟨_, hentry, args, he⟩
  · exact .error (.inl trivial)

theorem failsOnly_single : (single name args).FailsOnly Error.Computational := by
  unfold single
  split
  · exact .ok
  · exact .error trivial

theorem failsOnly_abs : (abs args).FailsOnly Error.Computational := by
  unfold abs
  -- Nothing may unfold the test for the range, whose bounds are too large to be counted down.
  obtain ⟨inRange?, hrange⟩ : ∃ f, f = Integer.ofInt? := ⟨_, rfl⟩
  rw [← hrange]
  apply failsOnly_single.bind
  intro arg _
  split
  · exact .ok
  · split
    · exact .ok
    · exact .error trivial
  · exact .ok
  · exact .error trivial

theorem failsOnly_onText {f : String → String} :
    (onText name f args).FailsOnly Error.Computational := by
  apply failsOnly_single.bind
  intro arg _
  split
  · exact .ok
  · exact .ok
  · exact .error trivial

theorem failsOnly_concat : (concat args).FailsOnly Error.Computational := by
  unfold concat
  split <;> exact .ok

/-- The functions that are always there raise errors of computing only. -/
theorem computational_of_raises_standard {e : Error} (h : standard.Raises e) : e.Computational := by
  obtain ⟨entry, hentry, args, herror⟩ := h
  simp only [standard, List.mem_cons, List.not_mem_nil, or_false] at hentry
  rcases hentry with rfl | rfl | rfl | rfl | rfl
  · exact failsOnly_abs e herror
  · cases herror
  · exact failsOnly_concat e herror
  · exact failsOnly_onText e herror
  · exact failsOnly_onText e herror

end Functions

/-! ## Expressions -/

theorem Catalog.failsOnly_hierarchy {c : Catalog} {name : String} :
    (c.hierarchy name).FailsOnly Error.Computational := by
  unfold hierarchy
  split
  · exact .ok
  · exact .error trivial

namespace Expr

variable {c : Catalog} {functions : Functions} {P : Error → Prop}

theorem failsOnly_testMember {h : Hierarchy} {ancestor : String} {v : Scalar} :
    (testMember h ancestor v).FailsOnly Error.Computational := by
  unfold testMember
  split
  · exact .ok
  · exact .ok
  · exact .error trivial

theorem failsOnly_countRows {func : AggregateFn} {s : Scope} :
    (countRows func s).FailsOnly Error.Computational := by
  unfold countRows
  split
  · exact .ok
  · exact .error trivial

theorem failsOnly_readCell {b : Binding} {name : ColumnName} (h : (b.lookup name).FailsOnly P) :
    (readCell b name).FailsOnly P := by
  apply h.bind
  intro cell? _
  cases cell? with
  | none => exact .ok
  | some cell => exact .ok

theorem failsOnly_readColumn {s : Scope} {name : ColumnName}
    (hcomputational : ∀ e : Error, e.Computational → P e)
    (h : ∀ b ∈ s.partition, (b.lookup name).FailsOnly P) : (readColumn s name).FailsOnly P := by
  cases s with
  | row b => exact failsOnly_readCell (h b (List.mem_singleton_self b))
  | group key columns members =>
    unfold readColumn
    dsimp only
    split
    · exact .error (hcomputational _ trivial)
    · apply (List.failsOnly_mapM fun b hb => failsOnly_readCell (h b hb)).bind
      intro cells _
      exact .ok

theorem failsOnly_evalAll {args : List Expr} {s : Scope}
    (h : ∀ e ∈ args, (e.eval c functions s).FailsOnly P) : (evalAll c functions args s).FailsOnly P := by
  induction args with
  | nil => exact .ok
  | cons e rest ih =>
    apply (h e List.mem_cons_self).bind
    intro result _
    apply (ih fun e he => h e (List.mem_cons_of_mem _ he)).bind
    intro results _
    exact .ok

theorem mem_cubeColumns_call {f : String} {args : List Expr} {e : Expr} {name : CubeColumn} (he : e ∈ args)
    (hname : name ∈ e.cubeColumns) : name ∈ (call f args).cubeColumns := by
  unfold cubeColumns
  induction args with
  | nil => cases he
  | cons arg rest ih =>
    unfold cubeColumnsOfAll
    rcases List.mem_cons.1 he with rfl | he
    · exact List.mem_append_left _ hname
    · exact List.mem_append_right _ (ih he)

/-- What reading the leaves, computing and calling functions may fail with is all that an expression may fail
with. -/
theorem failsOnly_eval {e : Expr} {s : Scope}
    (hcomputational : ∀ e : Error, e.Computational → P e) (hraises : ∀ e, functions.Raises e → P e)
    (hread : ∀ name ∈ e.leaves, ∀ b ∈ s.partition, (b.lookup name).FailsOnly P)
    (hcube : ∀ name ∈ e.cubeColumns, c.hasColumn name.toColumn = false → P (.unresolvedSpeculative name)) :
    (e.eval c functions s).FailsOnly P := by
  induction e generalizing s with
  | literal v => exact .ok
  | column name => exact failsOnly_readColumn hcomputational (hread name (List.mem_singleton_self name))
  | speculative name =>
    unfold eval
    split
    · exact failsOnly_readColumn hcomputational (hread name.toColumn (List.mem_singleton_self _))
    · next hmissing => exact .error (hcube name (List.mem_singleton_self name) (by simpa using hmissing))
  | member hierarchy ancestor e ih =>
    apply (Catalog.failsOnly_hierarchy.mono hcomputational).bind
    intro h _
    apply (ih hread hcube).bind
    intro result _
    apply (failsOnly_testMember.mono hcomputational).bind
    intro v _
    exact .ok
  | unary op e ih =>
    apply (ih hread hcube).bind
    intro result _
    apply (UnaryOp.failsOnly_apply.mono hcomputational).bind
    intro v _
    exact .ok
  | binary op e e' ih ih' =>
    have hleft := ih (fun name hname => hread name (mem_leaves_binary.2 (.inl hname)))
      fun name hname => hcube name (List.mem_append_left _ hname)
    have hright := ih' (fun name hname => hread name (mem_leaves_binary.2 (.inr hname)))
      fun name hname => hcube name (List.mem_append_right _ hname)
    apply hleft.bind
    intro result _
    apply hright.bind
    intro result' _
    apply (BinaryOp.failsOnly_apply.mono hcomputational).bind
    intro v _
    exact .ok
  | call f args ih =>
    have hargs : (evalAll c functions args s).FailsOnly P := failsOnly_evalAll fun e he =>
      ih e he (fun name hname => hread name (mem_leaves_call he hname))
        fun name hname => hcube name (mem_cubeColumns_call he hname)
    apply hargs.bind
    intro results _
    apply (Functions.failsOnly_call.mono fun e he => he.elim (hcomputational e) (hraises e)).bind
    intro v _
    exact .ok
  | aggregate func e ih =>
    apply (List.failsOnly_mapM fun b hb => ih (fun name hname b' hb' => ?_) hcube).bind
    · intro results _
      apply (AggregateFn.failsOnly_apply.mono hcomputational).bind
      intro v _
      exact .ok
    · rw [List.mem_singleton.1 hb']
      exact hread name hname b hb
  | aggregateRows func =>
    apply (failsOnly_countRows.mono hcomputational).bind
    intro v _
    exact .ok

theorem failsOnly_evaluate {e : Expr} {s : Scope} (h : (e.eval c functions s).FailsOnly P) :
    (e.evaluate c functions s).FailsOnly P := by
  apply h.bind
  intro result _
  exact .ok

/-! ## Every leaf is read -/

theorem exists_leaf_of_call {f : String} {args : List Expr} {name : ColumnName}
    (hname : name ∈ (call f args).leaves) : ∃ e ∈ args, name ∈ e.leaves := by
  unfold leaves columns cubeColumns at hname
  induction args with
  | nil => cases hname
  | cons arg rest ih =>
    simp only [columnsOfAll, cubeColumnsOfAll, List.map_append, List.mem_append] at hname ih
    by_cases harg : name ∈ arg.leaves
    · exact ⟨arg, List.mem_cons_self, harg⟩
    · simp only [leaves, List.mem_append, not_or] at harg
      obtain ⟨e, he, hleaf⟩ := ih (hname.imp (·.resolve_left harg.1) (·.resolve_left harg.2))
      exact ⟨e, List.mem_cons_of_mem _ he, hleaf⟩

theorem readings_of_readCell_ne_nil {b : Binding} {name : ColumnName} {v : Scalar} {readings : Readings}
    (h : readCell b name = .ok (v, readings)) : readings ≠ [] := by
  obtain ⟨cell?, -, h⟩ := Except.bind_eq_ok_iff.1 h
  cases cell? with
  | none => cases h; simp
  | some cell => cases h; simp

/-- Some computations of which each reads something read something together. -/
private theorem readings_flatMap_ne_nil {α : Type} {f : α → Except Error (Scalar × Readings)}
    {xs : List α} {results : List (Scalar × Readings)} (hxs : xs ≠ []) (h : xs.mapM f = .ok results)
    (hread : ∀ x v readings, f x = .ok (v, readings) → readings ≠ []) :
    results.flatMap Prod.snd ≠ [] := by
  rw [List.mapM_eq_ok_iff] at h
  cases h with
  | nil => exact absurd rfl hxs
  | cons hx _ => simp [hread _ _ _ hx]

theorem readings_of_readColumn_ne_nil {s : Scope} {name : ColumnName} {v : Scalar} {readings : Readings}
    (hs : s.partition ≠ []) (h : readColumn s name = .ok (v, readings)) : readings ≠ [] := by
  cases s with
  | row b => exact readings_of_readCell_ne_nil h
  | group key columns members =>
    unfold readColumn at h
    dsimp only at h
    split at h
    · cases h
    · obtain ⟨cells, hcells, h⟩ := Except.bind_eq_ok_iff.1 h
      cases h
      exact readings_flatMap_ne_nil hs hcells fun b v readings => readings_of_readCell_ne_nil

/-- An expression with a leaf that is evaluated over some bindings reads something. -/
theorem readings_ne_nil {e : Expr} {s : Scope} {name : ColumnName} {v : Scalar} {readings : Readings}
    (hs : s.partition ≠ []) (hname : name ∈ e.leaves) (h : e.eval c functions s = .ok (v, readings)) :
    readings ≠ [] := by
  induction e generalizing s v readings with
  | literal | aggregateRows => cases hname
  | column => exact readings_of_readColumn_ne_nil hs h
  | speculative =>
    unfold eval at h
    split at h
    · exact readings_of_readColumn_ne_nil hs h
    · cases h
  | member hierarchy ancestor e ih =>
    obtain ⟨_, -, h⟩ := Except.bind_eq_ok_iff.1 h
    obtain ⟨_, he, h⟩ := Except.bind_eq_ok_iff.1 h
    obtain ⟨_, -, h⟩ := Except.bind_eq_ok_iff.1 h
    cases h
    exact ih hs hname he
  | unary op e ih =>
    obtain ⟨_, he, h⟩ := Except.bind_eq_ok_iff.1 h
    obtain ⟨_, -, h⟩ := Except.bind_eq_ok_iff.1 h
    cases h
    exact ih hs hname he
  | binary op e e' ih ih' =>
    obtain ⟨_, he, h⟩ := Except.bind_eq_ok_iff.1 h
    obtain ⟨_, he', h⟩ := Except.bind_eq_ok_iff.1 h
    obtain ⟨_, -, h⟩ := Except.bind_eq_ok_iff.1 h
    cases h
    intro hnil
    obtain ⟨hleft, hright⟩ := List.append_eq_nil_iff.1 hnil
    rcases mem_leaves_binary.1 hname with hname | hname
    · exact ih hs hname he hleft
    · exact ih' hs hname he' hright
  | call f args ih =>
    obtain ⟨_, hargs, h⟩ := Except.bind_eq_ok_iff.1 h
    obtain ⟨_, -, h⟩ := Except.bind_eq_ok_iff.1 h
    cases h
    obtain ⟨results, hresults, -, hreadings⟩ := evalAll_eq_ok_iff.1 hargs
    obtain ⟨e, he, hleaf⟩ := exists_leaf_of_call hname
    obtain ⟨result, hresult, heval⟩ := (List.mapM_eq_ok_iff.1 hresults).exists_of_mem_left he
    rw [← hreadings]
    intro hnil
    exact ih e he hs hleaf heval (List.flatMap_eq_nil_iff.1 hnil result hresult)
  | aggregate func e ih =>
    obtain ⟨results, hresults, h⟩ := Except.bind_eq_ok_iff.1 h
    obtain ⟨_, -, h⟩ := Except.bind_eq_ok_iff.1 h
    cases h
    exact readings_flatMap_ne_nil hs hresults fun b v readings hb =>
      ih (s := .row b) (List.cons_ne_nil b []) hname hb

/-- An expression with parameters that is evaluated over some bindings has sources, or met an empty place. -/
theorem read_of_evaluate {e : Expr} {s : Scope} {result : Evaluated} (hs : s.partition ≠ [])
    (hparameters : e.parameterCount ≠ 0) (h : e.evaluate c functions s = .ok result) :
    result.sources ≠ [] ∨ result.nullExtended = true := by
  obtain ⟨⟨v, readings⟩, he, h⟩ := Except.bind_eq_ok_iff.1 h
  cases h
  have hleaves : e.leaves ≠ [] := by
    intro hnil
    apply hparameters
    simpa [leaves, parameterCount] using congrArg List.length hnil
  obtain ⟨name, hname⟩ := List.exists_mem_of_ne_nil _ hleaves
  obtain ⟨reading, hreading⟩ := List.exists_mem_of_ne_nil _ (readings_ne_nil hs hname he)
  cases reading with
  | none => exact .inr (List.any_eq_true.2 ⟨none, hreading, rfl⟩)
  | some x =>
    left
    apply distinctById_ne_nil
    exact List.ne_nil_of_mem (List.mem_filterMap.2 ⟨some x, hreading, rfl⟩)

end Expr

end Provenance
