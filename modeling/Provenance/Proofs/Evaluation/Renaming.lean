import Provenance.Evaluation
import Provenance.Proofs.Evaluation.Footprint

/-!
# Evaluation does not look at identities

Over scopes that are the same but for the identities of their rows and values, an expression evaluates to
the same value, and what was read for it corresponds (`Expr.evaluate_rel`).
-/

namespace Provenance

/-- A correspondence of entities that changes identities only, and keeps apart what was apart. -/
structure Entity.Renames (E : Entity → Entity → Prop) : Prop where
  kind : ∀ a a', E a a' → a.kind = a'.kind
  id : ∀ a b a' b', E a a' → E b b' → (a.id = b.id ↔ a'.id = b'.id)

theorem Entity.Renames.biUnique {E : Entity → Entity → Prop} (hE : Renames E) : Relator.BiUnique E := by
  constructor
  · intro a b c hac hbc
    have hkind := (hE.kind _ _ hac).trans (hE.kind _ _ hbc).symm
    have hid := (hE.id _ _ _ _ hac hbc).2 rfl
    cases a; cases b; cases hkind; cases hid; rfl
  · intro a b c hab hac
    have hkind := (hE.kind _ _ hab).symm.trans (hE.kind _ _ hac)
    have hid := (hE.id _ _ _ _ hab hac).1 rfl
    cases b; cases c; cases hkind; cases hid; rfl

/-- Cells of corresponding values with the same payload. -/
def Cell.Renamed (E : Entity → Entity → Prop) (a b : Cell) : Prop :=
  E a.value b.value ∧ a.payload = b.payload

abbrev SourceRow.Renamed (E : Entity → Entity → Prop) : SourceRow → SourceRow → Prop :=
  SourceRow.Alike E (Cell.Renamed E)

abbrev SourceTable.Renamed (E : Entity → Entity → Prop) : SourceTable → SourceTable → Prop :=
  SourceTable.Alike E (Cell.Renamed E)

abbrev Binding.Renamed (E : Entity → Entity → Prop) : Binding → Binding → Prop :=
  Binding.Alike E (Cell.Renamed E)

abbrev Scope.Renamed (E : Entity → Entity → Prop) : Scope → Scope → Prop :=
  Scope.Alike Eq E (Cell.Renamed E)

/-- Results with the same value whose sources correspond. -/
structure Evaluated.Renamed (E : Entity → Entity → Prop) (x y : Evaluated) : Prop where
  value : x.value = y.value
  sources : List.Forall₂ E x.sources y.sources
  nullExtended : x.nullExtended = y.nullExtended

theorem Binding.payload_rel {E : Entity → Entity → Prop} {b b' : Binding} (hb : b.Renamed E b')
    (name : ColumnName) :
    Except.Rel Eq (b.payload name) (b'.payload name) := by
  refine (hb.lookup name).bind fun cell cell' hcell => ?_
  cases hcell with
  | none => exact .ok rfl
  | some hcell => exact .ok hcell.2

namespace Expr

variable {E : Entity → Entity → Prop} {b b' : Binding} {s s' : Scope}

/-- The same value, from corresponding readings. -/
private def SameRead (E : Entity → Entity → Prop) (x y : Scalar × Readings) : Prop :=
  x.1 = y.1 ∧ List.Forall₂ (Option.Rel E) x.2 y.2

private theorem readCell_rel (hb : b.Renamed E b') (name : ColumnName) :
    Except.Rel (SameRead E) (readCell b name) (readCell b' name) := by
  refine (hb.lookup name).bind fun cell cell' hcell => ?_
  cases hcell with
  | none => exact .ok ⟨rfl, .cons .none .nil⟩
  | some hcell => exact .ok ⟨hcell.2, .cons (.some hcell.1) .nil⟩

private theorem flatMap_readings {xs ys : List (Scalar × Readings)} (h : List.Forall₂ (SameRead E) xs ys) :
    List.Forall₂ (Option.Rel E) (xs.flatMap Prod.snd) (ys.flatMap Prod.snd) :=
  List.rel_flatMap h fun _ _ hxy => hxy.2

/-- A value computed from what was read alike is the same, from corresponding readings. -/
private theorem result_rel {x : Except Error Scalar} {readings readings' : Readings}
    (h : List.Forall₂ (Option.Rel E) readings readings') :
    Except.Rel (SameRead E) (do pure (← x, readings)) (do pure (← x, readings')) :=
  Except.Rel.refl.bind fun _ _ hv => .ok ⟨hv, h⟩

private theorem readColumn_rel (hs : s.Renamed E s') (name : ColumnName) :
    Except.Rel (SameRead E) (readColumn s name) (readColumn s' name) := by
  cases hs with
  | row hb => exact readCell_rel hb name
  | @group key _ columns _ _ hkey hmembers =>
    subst hkey
    unfold readColumn
    dsimp only
    split
    · exact .error
    · refine (hmembers.mapM fun _ _ hb => readCell_rel hb name).bind fun cells cells' hcells => ?_
      exact .ok ⟨rfl, flatMap_readings hcells⟩

variable {c : Catalog} {functions : Functions}

private theorem evalAll_rel {args : List Expr}
    (ih : ∀ e ∈ args, Except.Rel (SameRead E) (e.eval c functions s) (e.eval c functions s')) :
    Except.Rel (fun x y => x.1 = y.1 ∧ List.Forall₂ (Option.Rel E) x.2 y.2)
      (evalAll c functions args s) (evalAll c functions args s') := by
  induction args with
  | nil => exact .ok ⟨rfl, .nil⟩
  | cons e rest ihrest =>
    unfold evalAll
    refine (ih e List.mem_cons_self).bind fun x y hxy => ?_
    refine (ihrest fun e he => ih e (List.mem_cons_of_mem _ he)).bind fun xs ys hxys => ?_
    exact .ok ⟨by rw [hxy.1, hxys.1], List.rel_append hxy.2 hxys.2⟩

private theorem eval_rel {e : Expr} (hs : s.Renamed E s') :
    Except.Rel (SameRead E) (e.eval c functions s) (e.eval c functions s') := by
  induction e generalizing s s' with
  | literal => exact .ok ⟨rfl, .nil⟩
  | column name => exact readColumn_rel hs name
  | speculative name =>
    unfold eval
    split
    · exact readColumn_rel hs name.toColumn
    · exact .error
  | member hierarchy ancestor e ih =>
    unfold eval
    refine Except.Rel.refl.bind fun _ h hh => ?_
    subst hh
    refine (ih hs).bind ?_
    rintro ⟨v, readings⟩ ⟨_, readings'⟩ ⟨rfl, hr⟩
    exact result_rel hr
  | unary op e ih =>
    unfold eval
    refine (ih hs).bind ?_
    rintro ⟨v, readings⟩ ⟨_, readings'⟩ ⟨rfl, hr⟩
    exact result_rel hr
  | binary op e e' ih ih' =>
    unfold eval
    refine (ih hs).bind ?_
    rintro ⟨v, readings⟩ ⟨_, readings'⟩ ⟨rfl, hr⟩
    refine (ih' hs).bind ?_
    rintro ⟨v', more⟩ ⟨_, more'⟩ ⟨rfl, hr'⟩
    exact result_rel (List.rel_append hr hr')
  | call f args ih =>
    unfold eval
    refine (evalAll_rel fun e he => ih e he hs).bind ?_
    rintro ⟨vs, readings⟩ ⟨_, readings'⟩ ⟨rfl, hr⟩
    exact result_rel hr
  | aggregate func e ih =>
    unfold eval
    refine (hs.partition.mapM fun _ _ hb => ih (.row hb)).bind fun xs ys hxys => ?_
    rw [hxys.map_eq (f := Prod.fst) (g := Prod.fst) fun _ _ hxy => hxy.1]
    exact result_rel (flatMap_readings hxys)
  | aggregateRows func =>
    unfold eval countRows
    rw [hs.partition.length_eq]
    exact result_rel .nil

/-- Evaluation gives the same value, from corresponding sources. -/
theorem evaluate_rel {e : Expr} (hE : Entity.Renames E) (hs : s.Renamed E s') :
    Except.Rel (Evaluated.Renamed E) (e.evaluate c functions s) (e.evaluate c functions s') := by
  refine (eval_rel hs).bind fun x y hxy => ?_
  refine .ok ⟨hxy.1, forall₂_distinctById hE.id ?_, ?_⟩
  · exact List.rel_filterMap (fun _ _ h => h) hxy.2
  · refine hxy.2.any_eq fun r r' hr => ?_
    cases hr with
    | none => rfl
    | some => rfl

end Expr

end Provenance
