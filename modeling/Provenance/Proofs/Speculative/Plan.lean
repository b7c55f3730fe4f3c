import Provenance.Proofs.Initialization.Staging

/-!
# Plans under different policies

The policy decides about columns that need a speculative column which the schema does not have
(`Column.missing`), and about no others. Leaving them out and filling them with a literal fail alike, and the
plans differ in nothing but the filled columns (`Plan.extends_default`). Aborting plans the same if there is
no such column (`Plan.extends_abort`); if there is one it tells of it, unless all policies fail alike
(`Plan.columns_abort`).
-/

namespace Provenance

/-- The speculative columns that a column needs and that the schema does not have. -/
def Column.missing (c : Catalog) (col : Column) : List CubeColumn :=
  (col.expr?.toList.flatMap Expr.cubeColumns).filter fun name => !c.hasColumn name.toColumn

theorem Column.mem_missing {c : Catalog} {col : Column} {e : Expr} {name : CubeColumn}
    (he : col.expr? = some e) :
    name ∈ col.missing c ↔ name ∈ e.cubeColumns ∧ c.hasColumn name.toColumn = false := by
  simp [missing, he]

/-- A column is computed, not filled with a literal. -/
def ColumnPlan.isComputed : ColumnPlan → Bool
  | .compute .. => true
  | .fill .. => false

namespace Plan

/-- A plan for all columns that computes those of another plan, and fills the others with a literal. -/
structure Widens (l : Scalar) (cols : List Column) (plan plan' : List ColumnPlan) : Prop where
  computed : plan = plan'.filter ColumnPlan.isComputed
  filled : ∀ planned ∈ plan', planned.isComputed = false → planned = .fill planned.column l
  columns : plan'.map ColumnPlan.column = cols

/-- Planning under a policy fails as it does where columns that need something missing are left out, or plans
these to be filled with a literal. -/
def Extends (c : Catalog) (policy : SpeculativePolicy) (l : Scalar) (cols : List Column) : Prop :=
  ∀ sources table, Except.Rel (Widens l cols) (columns c .skip sources table cols)
    (columns c policy sources table cols)

variable {c : Catalog} {policy policy' : SpeculativePolicy} {sources : List SourceTable} {table : String}
  {col : Column} {cols : List Column} {plan : List ColumnPlan} {planned : ColumnPlan} {l : Scalar}

theorem missing_eq_nil_iff {e : Expr} (he : col.expr? = some e) :
    col.missing c = [] ↔ ∀ name ∈ e.cubeColumns, c.hasColumn name.toColumn := by
  simp only [List.eq_nil_iff_forall_not_mem, Column.mem_missing he, not_and, Bool.not_eq_false]

/-- What is planned is computed if nothing is missing. -/
theorem isComputed_iff (h : column c policy sources table col = .ok (some planned)) :
    planned.isComputed ↔ col.missing c = [] := by
  obtain ⟨e, he, ⟨rfl, hall⟩ | ⟨v, rfl, -, name, hname, hlacks⟩⟩ := cases_of_column h
  · exact iff_of_true rfl ((missing_eq_nil_iff he).2 hall)
  · refine iff_of_false Bool.false_ne_true fun hnil => ?_
    cases hlacks.symm.trans ((missing_eq_nil_iff he).1 hnil name hname)

theorem isComputed_of_mem (h : columns c policy sources table cols = .ok plan) (hplanned : planned ∈ plan) :
    planned.isComputed ↔ planned.column.missing c = [] :=
  isComputed_iff (exists_of_mem_columns h hplanned).2

/-! ## One column -/

/-- The policy has no part in whether a column fails for what its sources do not have, nor in how one is
planned that needs nothing missing. -/
theorem cases_of_policies (c : Catalog) (sources : List SourceTable) (table : String) (col : Column) :
    (∃ e, ∀ policy, column c policy sources table col = .error e) ∨
      (∃ e, col.missing c = [] ∧ ∀ policy, column c policy sources table col = .ok (some (.compute col e))) ∨
      ∃ name ∈ col.missing c, column c .abort sources table col = .error (.unresolvedSpeculative name) ∧
        column c .skip sources table col = .ok none ∧
        ∀ v, column c (.default v) sources table col = .ok (some (.fill col v)) := by
  cases hkind : col.kind with
  | field =>
    exact .inl ⟨.violation (.derivedOwnsField table col.name), fun _ => by simp only [column, hkind]⟩
  | function text e references =>
    have he : col.expr? = some e := by simp only [Column.expr?, hkind]
    simp only [column, hkind]
    cases e.columnParams.find? fun name => !anyHasColumn sources name with
    | some name => exact .inl ⟨_, fun _ => rfl⟩
    | none =>
      cases hmissing : missingCube? c sources e with
      | error failure => exact .inl ⟨failure, fun _ => rfl⟩
      | ok missing =>
        cases missing with
        | none =>
          exact .inr (.inl ⟨e, (missing_eq_nil_iff he).2 (missingCube?_eq_none hmissing), fun _ => rfl⟩)
        | some name =>
          have hname := (Column.mem_missing he).2 (missingCube?_eq_some hmissing)
          exact .inr (.inr ⟨name, hname, rfl, rfl, fun _ => rfl⟩)

theorem column_congr (h : col.missing c = []) :
    column c policy sources table col = column c policy' sources table col := by
  rcases cases_of_policies c sources table col with ⟨e, hall⟩ | ⟨e, -, hall⟩ | ⟨name, hname, -⟩
  · rw [hall, hall]
  · rw [hall, hall]
  · rw [h] at hname
    cases hname

theorem column_widens :
    Except.Rel (fun option option' => Widens l [col] option.toList option'.toList)
      (column c .skip sources table col) (column c (.default l) sources table col) := by
  rcases cases_of_policies c sources table col with ⟨e, hall⟩ | ⟨e, -, hall⟩ | ⟨name, -, -, hskip, hfill⟩
  · rw [hall, hall]
    exact .error
  · rw [hall, hall]
    refine .ok ⟨rfl, fun planned hplanned hfilled => ?_, rfl⟩
    rw [List.mem_singleton.1 hplanned] at hfilled
    cases hfilled
  · rw [hskip, hfill]
    exact .ok ⟨rfl, fun planned hplanned _ => List.mem_singleton.1 hplanned ▸ rfl, rfl⟩

/-! ## All columns -/

theorem Widens.append {cols' : List Column} {plan' extra extra' : List ColumnPlan}
    (h : Widens l cols plan plan') (h' : Widens l cols' extra extra') :
    Widens l (cols ++ cols') (plan ++ extra) (plan' ++ extra') where
  computed := by rw [List.filter_append, h.computed, h'.computed]
  filled planned hplanned := (List.mem_append.1 hplanned).elim (h.filled planned) (h'.filled planned)
  columns := by rw [List.map_append, h.columns, h'.columns]

theorem filterMap_cons_toList (option : Option ColumnPlan) (options : List (Option ColumnPlan)) :
    (option :: options).filterMap id = option.toList ++ options.filterMap id := by
  cases option <;> rfl

/-- Leaving columns out or filling them makes no other difference. -/
theorem extends_default (c : Catalog) (l : Scalar) (cols : List Column) :
    Extends c (.default l) l cols := by
  intro sources table
  have hoptions : Except.Rel
      (fun options options' => Widens l cols (options.filterMap id) (options'.filterMap id))
      (cols.mapM (column c .skip sources table)) (cols.mapM (column c (.default l) sources table)) := by
    induction cols with
    | nil => exact .ok ⟨rfl, fun _ h => absurd h List.not_mem_nil, rfl⟩
    | cons col cols ih =>
      rw [List.mapM_cons, List.mapM_cons]
      refine column_widens.bind fun option option' hcol => ih.bind fun options options' hcols => .ok ?_
      rw [filterMap_cons_toList, filterMap_cons_toList]
      exact hcol.append hcols
  exact hoptions.bind fun _ _ h => .ok h

/-- Where no column needs anything missing all policies plan alike. -/
theorem columns_congr (policy policy' : SpeculativePolicy) (h : ∀ col ∈ cols, col.missing c = []) :
    columns c policy sources table cols = columns c policy' sources table cols := by
  unfold columns
  rw [List.mapM_congr fun col hcol => column_congr (h col hcol)]

theorem extends_abort (l : Scalar) (h : ∀ col ∈ cols, col.missing c = []) : Extends c .abort l cols := by
  intro sources table
  rw [columns_congr .abort (.default l) h]
  exact extends_default c l cols sources table

/-- Where a column needs something missing, aborting tells of it, or all policies fail alike. -/
theorem columns_abort (sources : List SourceTable) (table : String)
    (h : ∃ col ∈ cols, col.missing c ≠ []) :
    (∃ col ∈ cols, ∃ name ∈ col.missing c,
      columns c .abort sources table cols = .error (.unresolvedSpeculative name)) ∨
      ∃ e, ∀ policy, columns c policy sources table cols = .error e := by
  unfold columns
  induction cols with
  | nil =>
    obtain ⟨_, hcol, -⟩ := h
    cases hcol
  | cons col cols ih =>
    simp only [List.mapM_cons]
    rcases cases_of_policies c sources table col with ⟨e, hall⟩ | ⟨e, hnone, hall⟩ | ⟨name, hname, habort, -⟩
    · exact .inr ⟨e, fun policy => by rw [hall]; rfl⟩
    · have hrest : ∃ col ∈ cols, col.missing c ≠ [] := by
        obtain ⟨other, hother, hmissing⟩ := h
        rcases List.mem_cons.1 hother with rfl | hother
        · exact absurd hnone hmissing
        · exact ⟨other, hother, hmissing⟩
      have hbind : ∀ policy e', (cols.mapM (column c policy sources table) >>= fun options =>
          (pure (options.filterMap id) : Except Error (List ColumnPlan))) = .error e' →
          cols.mapM (column c policy sources table) = .error e' := fun policy e' h =>
        (Except.bind_eq_error_iff.1 h).resolve_right fun ⟨_, _, h⟩ => nomatch h
      rcases ih hrest with ⟨other, hother, name, hname, habort⟩ | ⟨e', hall'⟩
      · refine .inl ⟨other, List.mem_cons_of_mem _ hother, name, hname, ?_⟩
        rw [hall, hbind _ _ habort]
        rfl
      · refine .inr ⟨e', fun policy => ?_⟩
        rw [hall, hbind _ _ (hall' policy)]
        rfl
    · refine .inl ⟨col, List.mem_cons_self, name, hname, ?_⟩
      rw [habort]
      rfl

end Plan

end Provenance
