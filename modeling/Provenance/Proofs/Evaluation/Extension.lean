import Provenance.Proofs.Evaluation.Footprint
import Provenance.Rows.Create

/-!
# Evaluation where more is defined

Of the catalog an expression reads the hierarchies that it names and whether there are the columns of cubes
that it names. Where more is defined the hierarchies are the same, so an expression that has a value keeps it,
with all that is read for it, as long as no further column of a cube is there (`Expr.eval_extended`). The same
holds of the rows that an approach makes (`Approach.createRows_extended`).
-/

namespace Provenance

/-- A catalog has the columns of some cubes, or lacks them, as another one does. -/
def Catalog.AgreeOn (c c' : Catalog) (cubes : List CubeColumn) : Prop :=
  ∀ name ∈ cubes, c'.hasColumn name.toColumn = c.hasColumn name.toColumn

/-- The columns of cubes that decide which rows an approach makes. -/
def Approach.cubeColumns : Approach → List CubeColumn
  | .filter _ predicate => predicate.cubeColumns
  | .enrichment _ | .join .. | .group .. => []

theorem Catalog.AgreeOn.mono {c c' : Catalog} {cubes cubes' : List CubeColumn} (h : c.AgreeOn c' cubes')
    (hsub : ∀ name ∈ cubes, name ∈ cubes') : c.AgreeOn c' cubes := fun name hname => h name (hsub name hname)

variable {c c' : Catalog} {functions : Functions}

namespace Expr

theorem mem_cubeColumnsOfAll {e : Expr} {args : List Expr} {name : CubeColumn} (he : e ∈ args)
    (hname : name ∈ e.cubeColumns) : name ∈ cubeColumnsOfAll args := by
  induction args with
  | nil => cases he
  | cons arg rest ih =>
    unfold cubeColumnsOfAll
    rcases List.mem_cons.1 he with rfl | he
    · exact List.mem_append_left _ hname
    · exact List.mem_append_right _ (ih he)

variable (hhierarchies : ∀ name h, c.hierarchy name = .ok h → c'.hierarchy name = .ok h)
include hhierarchies

/-- An expression that has a value has the same value, from the same readings, where more is defined. -/
theorem eval_extended {e : Expr} {s : Scope} {result : Scalar × Readings} (hcubes : c.AgreeOn c' e.cubeColumns)
    (h : e.eval c functions s = .ok result) : e.eval c' functions s = .ok result := by
  induction e generalizing s result with
  | literal | column | aggregateRows => exact h
  | speculative name =>
    unfold eval at h ⊢
    rwa [hcubes name List.mem_cons_self]
  | member hierarchy ancestor e ih =>
    unfold eval at h ⊢
    obtain ⟨found, hfound, h⟩ := Except.bind_eq_ok_iff.1 h
    obtain ⟨value, hvalue, h⟩ := Except.bind_eq_ok_iff.1 h
    rw [hhierarchies _ _ hfound]
    exact (Except.bind_of_ok (ih hcubes hvalue)).trans h
  | unary op e ih =>
    unfold eval at h ⊢
    obtain ⟨value, hvalue, h⟩ := Except.bind_eq_ok_iff.1 h
    exact (Except.bind_of_ok (ih hcubes hvalue)).trans h
  | binary op e e' ih ih' =>
    unfold eval at h ⊢
    obtain ⟨value, hvalue, h⟩ := Except.bind_eq_ok_iff.1 h
    obtain ⟨value', hvalue', h⟩ := Except.bind_eq_ok_iff.1 h
    have hleft := ih (hcubes.mono fun _ => List.mem_append_left _) hvalue
    have hright := ih' (hcubes.mono fun _ => List.mem_append_right _) hvalue'
    exact (Except.bind_of_ok hleft).trans ((Except.bind_of_ok hright).trans h)
  | call function args ih =>
    unfold eval at h ⊢
    obtain ⟨⟨vs, readings⟩, hvalues, h⟩ := Except.bind_eq_ok_iff.1 h
    obtain ⟨results, hresults, hvs, hreadings⟩ := evalAll_eq_ok_iff.1 hvalues
    have hargs : args.mapM (fun e => e.eval c' functions s) = .ok results := by
      rw [List.mapM_eq_ok_iff] at hresults ⊢
      refine hresults.mem_left.imp ?_
      rintro e _ ⟨he, hvalue⟩
      exact ih e he (hcubes.mono fun _ => mem_cubeColumnsOfAll he) hvalue
    have hall : evalAll c' functions args s = .ok (vs, readings) :=
      evalAll_eq_ok_iff.2 ⟨results, hargs, hvs, hreadings⟩
    exact (Except.bind_of_ok hall).trans h
  | aggregate func e ih =>
    unfold eval at h ⊢
    obtain ⟨results, hresults, h⟩ := Except.bind_eq_ok_iff.1 h
    rw [List.mapM_eq_ok_iff] at hresults
    have hrows := List.mapM_eq_ok_iff.2 (hresults.imp fun _ _ hvalue => ih hcubes hvalue)
    exact (Except.bind_of_ok hrows).trans h

theorem evaluate_extended {e : Expr} {s : Scope} {result : Evaluated} (hcubes : c.AgreeOn c' e.cubeColumns)
    (h : e.evaluate c functions s = .ok result) : e.evaluate c' functions s = .ok result := by
  obtain ⟨value, hvalue, h⟩ := Except.bind_eq_ok_iff.1 h
  exact (Except.bind_of_ok (eval_extended hhierarchies hcubes hvalue)).trans h

end Expr

/-- Where more is defined an approach makes the same rows. -/
theorem Approach.createRows_extended {a : Approach} {sources : List SourceTable} {frames : List RowFrame}
    (hhierarchies : ∀ name h, c.hierarchy name = .ok h → c'.hierarchy name = .ok h)
    (hcubes : c.AgreeOn c' a.cubeColumns) (h : a.createRows c functions sources = .ok frames) :
    a.createRows c' functions sources = .ok frames := by
  cases a with
  | enrichment | join | group => exact h
  | filter source predicate =>
    unfold createRows at h ⊢
    obtain ⟨_, hcheck, h⟩ := Except.bind_eq_ok_iff.1 h
    obtain ⟨t, ht, h⟩ := Except.bind_eq_ok_iff.1 h
    obtain ⟨kept, hkept, h⟩ := Except.bind_eq_ok_iff.1 h
    have hrows : t.rows.mapM (filterRow c' functions predicate t) = .ok kept := by
      rw [List.mapM_eq_ok_iff] at hkept ⊢
      refine hkept.imp fun r frame? hrow => ?_
      obtain ⟨result, hresult, hrow⟩ := Except.bind_eq_ok_iff.1 hrow
      exact (Except.bind_of_ok (Expr.evaluate_extended hhierarchies hcubes hresult)).trans hrow
    exact (Except.bind_of_ok hcheck).trans ((Except.bind_of_ok ht).trans ((Except.bind_of_ok hrows).trans h))

end Provenance
