import Provenance.Proofs.Initialization.Renaming
import Provenance.Proofs.Speculative.Plan

/-!
# Rows under different policies

Rows are made before any column is computed, and a column that is filled with a literal reads nothing and
cannot fail. So a derived table fails alike whether columns that need something missing are left out or filled
(`Derive.draft_rel_of_extends`), and its rows hold the same in all other columns (`Derive.tabulate_widened`).
-/

namespace Provenance

variable {E : Entity → Entity → Prop} {c : Catalog} {functions : Functions} {l : Scalar} {cols : List Column}
  {plan plan' : List ColumnPlan}

/-- The cells of a row under two plans, the second of which fills further columns with a literal: the same
payloads from corresponding values in the columns of the first plan, and the literal in all others. -/
structure Derive.Widened (E : Entity → Entity → Prop) (l : Scalar) (plan plan' : List ColumnPlan)
    (cells cells' : List (Scalar × List Entity)) : Prop where
  width : cells.length = plan.length
  width' : cells'.length = plan'.length
  computed : List.Forall₂
    (fun cell cell' => cell.1 = cell'.1 ∧ cell.2.1 = cell'.2.1 ∧ List.Forall₂ E cell.2.2 cell'.2.2)
    (plan.zip cells) ((plan'.zip cells').filter fun cell => cell.1.isComputed)
  filled : ∀ cell ∈ plan'.zip cells', cell.1.isComputed = false → cell.2 = (l, [])

/-- Rows made from corresponding rows under two such plans. -/
structure ComputedRow.Widened (E : Entity → Entity → Prop) (l : Scalar) (plan plan' : List ColumnPlan)
    (row row' : ComputedRow) : Prop where
  sources : List.Forall₂ E row.sources row'.sources
  cells : Derive.Widened E l plan plan' row.cells row'.cells

namespace Derive

/-! ## Cells -/

theorem Widened.compute {cells cells' : List (Scalar × List Entity)} {col : Column} {e : Expr}
    {held held' : Scalar × List Entity} (h : Widened E l plan plan' cells cells')
    (hheld : held.1 = held'.1 ∧ List.Forall₂ E held.2 held'.2) :
    Widened E l (.compute col e :: plan) (.compute col e :: plan') (held :: cells) (held' :: cells') where
  width := congrArg Nat.succ h.width
  width' := congrArg Nat.succ h.width'
  computed := .cons ⟨rfl, hheld⟩ h.computed
  filled cell hcell hfilled := by
    rcases List.mem_cons.1 hcell with rfl | hcell
    · cases hfilled
    · exact h.filled cell hcell hfilled

theorem Widened.fill {cells cells' : List (Scalar × List Entity)} (col : Column)
    (h : Widened E l plan plan' cells cells') :
    Widened E l plan (.fill col l :: plan') cells ((l, []) :: cells') where
  width := h.width
  width' := congrArg Nat.succ h.width'
  computed := h.computed
  filled cell hcell hfilled := by
    rcases List.mem_cons.1 hcell with rfl | hcell
    · rfl
    · exact h.filled cell hcell hfilled

/-- In corresponding frames the computed columns of a plan come out as they do without the others, of which
none fails. -/
theorem mapM_cell_widened {frame frame' : RowFrame} (hE : Entity.Renames E)
    (hframe : frame.Renamed E frame')
    (hfilled : ∀ planned ∈ plan', planned.isComputed = false → planned = .fill planned.column l) :
    Except.Rel (Widened E l (plan'.filter ColumnPlan.isComputed) plan')
      ((plan'.filter ColumnPlan.isComputed).mapM (cell c functions frame))
      (plan'.mapM (cell c functions frame')) := by
  induction plan' with
  | nil => exact .ok ⟨rfl, rfl, .nil, fun _ h => absurd h List.not_mem_nil⟩
  | cons planned plan' ih =>
    have ih := ih fun other hother => hfilled other (List.mem_cons_of_mem _ hother)
    cases planned with
    | compute col e =>
      rw [List.filter_cons_of_pos rfl, List.mapM_cons, List.mapM_cons]
      exact (cell_rel hE hframe (.compute col e)).bind fun _ _ hheld => ih.bind fun _ _ hcells =>
        .ok (hcells.compute hheld)
    | fill col v =>
      cases hfilled _ List.mem_cons_self rfl
      rw [List.filter_cons_of_neg Bool.false_ne_true, List.mapM_cons]
      have hrest := ih.bind (f := pure) (g := fun cells => pure ((l, []) :: cells)) fun _ _ hcells =>
        .ok (hcells.fill col)
      rwa [bind_pure] at hrest

/-! ## Rows -/

theorem compute_widened {frame frame' : RowFrame} (hE : Entity.Renames E)
    (hplan : Plan.Widens l cols plan plan') (hframe : frame.Renamed E frame') :
    Except.Rel (ComputedRow.Widened E l plan plan') (compute c functions plan frame)
      (compute c functions plan' frame') := by
  obtain ⟨rfl, hfilled, -⟩ := hplan
  exact (mapM_cell_widened hE hframe hfilled).bind fun _ _ hcells => .ok ⟨hframe.sourceRows, hcells⟩

/-- The planned columns of a derived table, and its rows as they are computed. -/
def tabulate (c : Catalog) (functions : Functions) (policy : SpeculativePolicy) (table : Table)
    (creation : Creation) (sources : List SourceTable) :
    Except Error (List ColumnPlan × List ComputedRow) := do
  let plan ← Plan.columns c policy sources table.name (c.columnsOf table.id)
  let frames ← creation.approach.createRows c functions sources
  pure (plan, ← frames.mapM (compute c functions plan))

/-- Over corresponding sources a derived table fails alike whether columns that need something missing are
left out or filled, and its rows differ in the filled columns only. -/
theorem tabulate_widened {policy : SpeculativePolicy} {table : Table} {sources sources' : List SourceTable}
    (functions : Functions) (creation : Creation) (hE : Entity.Renames E)
    (hextends : Plan.Extends c policy l (c.columnsOf table.id))
    (hsources : List.Forall₂ (SourceTable.Renamed E) sources sources') :
    Except.Rel (fun x x' => Plan.Widens l (c.columnsOf table.id) x.1 x'.1 ∧
        List.Forall₂ (ComputedRow.Widened E l x.1 x'.1) x.2 x'.2)
      (tabulate c functions .skip table creation sources)
      (tabulate c functions policy table creation sources') := by
  unfold tabulate
  rw [← Plan.columns_eq hsources policy]
  refine (hextends sources table.name).bind fun plan plan' hplan => ?_
  refine (Approach.createRows_rel hE hsources creation.approach).bind fun frames frames' hframes => ?_
  refine (hframes.mapM fun _ _ hframe => compute_widened hE hplan hframe).bind fun _ _ hrows => ?_
  exact .ok ⟨hplan, hrows⟩

/-- What a filled column reads is nothing, so it has no part in the edges of the definition. -/
theorem definitionEdges_eq (creation : Creation) (h : Plan.Widens l cols plan plan') :
    definitionEdges creation plan = definitionEdges creation plan' := by
  have hflatMap : ∀ plan : List ColumnPlan, ∀ f : ColumnPlan → List Edge,
      (∀ planned, planned.isComputed = false → f planned = []) →
      (plan.filter ColumnPlan.isComputed).flatMap f = plan.flatMap f := by
    intro plan f hf
    induction plan with
    | nil => rfl
    | cons planned plan ih =>
      cases hplanned : planned.isComputed with
      | true => rw [List.filter_cons_of_pos hplanned, List.flatMap_cons, List.flatMap_cons, ih]
      | false =>
        rw [List.filter_cons_of_neg (by simp [hplanned]), List.flatMap_cons, hf planned hplanned, ih]
        rfl
  rw [h.computed, definitionEdges, definitionEdges, hflatMap]
  intro planned hplanned
  cases planned with
  | compute => cases hplanned
  | fill => rfl

end Derive

/-! ## Drafts -/

/-- The setup with another policy. -/
def Setup.under (setup : Setup) (policy : SpeculativePolicy) : Setup :=
  { setup with settings := { setup.settings with policy } }

theorem Setup.under_self (setup : Setup) : setup.under setup.settings.policy = setup := rfl

namespace Derive

variable {setup : Setup} {p p' : Populated} {t : Table} {creation : Creation}
  {sources sources' : List SourceTable} {policy : SpeculativePolicy}

theorem draft_under_eq (horigin : p.origin = .derived) (htable : p.table = t.id) :
    draft (setup.under policy) p t creation sources = (do
      Plan.checkFilter setup.catalog sources creation.approach
      let x ← tabulate setup.catalog setup.functions policy t creation sources
      pure (.derived p (x.1.map fun column => column.column.id)
        (if setup.settings.recordDefinitions then definitionEdges creation x.1 else []) x.2)) := by
  rw [draft_eq horigin htable, tabulate]
  simp only [bind_assoc, pure_bind]
  rfl

/-- Over corresponding sources a derived table fails alike whether columns that need something missing are
left out or filled. -/
theorem draft_rel_of_extends (setup : Setup) (hc : t.creation = some creation) (hp : p.Of t) (hp' : p'.Of t)
    (hE : Entity.Renames E) (hextends : Plan.Extends setup.catalog policy l (setup.catalog.columnsOf t.id))
    (hsources : List.Forall₂ (SourceTable.Renamed E) sources sources') :
    Except.Rel (fun _ _ => True) (draft (setup.under .skip) p t creation sources)
      (draft (setup.under policy) p' t creation sources') := by
  rw [draft_under_eq (hp.derived hc) hp.table, draft_under_eq (hp'.derived hc) hp'.table,
    ← Plan.checkFilter_eq hsources]
  refine Except.Rel.refl.bind fun _ _ _ => ?_
  exact (tabulate_widened setup.functions creation hE hextends hsources).bind fun _ _ _ => .ok trivial

/-- Where a column needs something missing, aborting tells of it, or all policies fail alike. -/
theorem draft_abort (p : Populated) (creation : Creation) (sources : List SourceTable)
    (h : ∃ col ∈ setup.catalog.columnsOf t.id, col.missing setup.catalog ≠ []) :
    (∃ col ∈ setup.catalog.columnsOf t.id, ∃ name ∈ col.missing setup.catalog,
      draft (setup.under .abort) p t creation sources = .error (.unresolvedSpeculative name)) ∨
      ∃ e, ∀ policy, draft (setup.under policy) p t creation sources = .error e := by
  unfold draft Setup.under
  dsimp only
  cases Plan.checkFilter setup.catalog sources creation.approach with
  | error e => exact .inr ⟨e, fun _ => rfl⟩
  | ok =>
    rcases Plan.columns_abort sources t.name h with
      ⟨col, hcol, name, hname, habort⟩ | ⟨e, hall⟩
    · refine .inl ⟨col, hcol, name, hname, ?_⟩
      rw [habort]
      rfl
    · refine .inr ⟨e, fun policy => ?_⟩
      rw [hall policy]
      rfl

end Derive

end Provenance
